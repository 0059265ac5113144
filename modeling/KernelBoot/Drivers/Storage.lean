import KernelBoot.Lib.Attempt
import KernelBoot.Lib.Bytes

/-!
# Storage devices (`kernel/drivers/storage/storage.c`)

The registered devices with what is on them. A device may have sectors that cannot be read or written;
an access that touches one fails, and a failing write has changed the sectors it could. Every call of
`storage_write` is counted, whatever comes of it.
-/

namespace KernelBoot.Drivers

open Lib Lib.Attempt

/-- `storage_device_t`, with the driver's functions as contents and good sectors. -/
structure StorageDevice where
  blockSize : Nat
  blockCount : Nat
  contents : Bytes
  readable : Nat → Bool
  writable : Nat → Bool

structure Storage where
  devices : List StorageDevice
  /-- Calls of `storage_write` so far. -/
  writes : Nat

/-- The check that `storage_read` and `storage_write` begin with. -/
def StorageDevice.inRange (device : StorageDevice) (lba count : Nat) : Prop :=
  count ≠ 0 ∧ lba < device.blockCount ∧ count ≤ device.blockCount - lba

instance (device : StorageDevice) (lba count : Nat) : Decidable (device.inRange lba count) :=
  inferInstanceAs (Decidable (_ ∧ _))

def storageDeviceAt (index : Nat) : Attempt Storage StorageDevice := do
  let device ← look fun s => s.devices[index]?
  ofOption device

def storageRead (index lba count : Nat) : Attempt Storage Bytes := do
  let device ← storageDeviceAt index
  check (device.inRange lba count ∧ ∀ i < count, device.readable (lba + i) = true)
  return device.contents.window (lba * device.blockSize)

/-- The device after a write: the sectors that cannot be written are as they were. -/
def StorageDevice.written (device : StorageDevice) (lba count : Nat) (buffer : Bytes) :
    StorageDevice :=
  { device with
    contents := fun i =>
      if device.writable (i / device.blockSize) then
        device.contents.splice (lba * device.blockSize) (count * device.blockSize) buffer i
      else device.contents i }

def storageWrite (index lba count : Nat) (buffer : Bytes) : Attempt Storage Unit := do
  change fun s => { s with writes := s.writes + 1 }
  let device ← storageDeviceAt index
  check (device.inRange lba count)
  change fun s => { s with devices := s.devices.set index (device.written lba count buffer) }
  check (∀ i < count, device.writable (lba + i) = true)

theorem storageDeviceAt_readOnly (index : Nat) : ReadOnly (storageDeviceAt index) :=
  .bind (.look _) fun _ => .ofOption _

theorem storageRead_readOnly (index lba count : Nat) : ReadOnly (storageRead index lba count) :=
  .bind (storageDeviceAt_readOnly index) fun _ => .bind (.check _) fun _ => .pure _

theorem storageRead_eq {index lba count : Nat} {device : StorageDevice} {s : Storage}
    (hdevice : s.devices[index]? = some device)
    (hrange : device.inRange lba count ∧ ∀ i < count, device.readable (lba + i) = true) :
    storageRead index lba count s = (some (device.contents.window (lba * device.blockSize)), s) := by
  have hat : storageDeviceAt index s = (some device, s) := by
    rw [storageDeviceAt, look_bind_apply, hdevice]
    rfl
  rw [storageRead, bind_of_some hat, bind_of_some (check_of_true hrange s), pure_apply]

/-- A write counts, whatever comes of it. -/
theorem storageWrite_writes (index lba count : Nat) (buffer : Bytes) (s : Storage) :
    (storageWrite index lba count buffer s).2.writes = s.writes + 1 := by
  have hkeeps : Keeps (fun t : Storage => t.writes = s.writes + 1) (do
      let device ← storageDeviceAt index
      check (device.inRange lba count)
      change fun s => { s with devices := s.devices.set index (device.written lba count buffer) }
      check (∀ i < count, device.writable (lba + i) = true)) := by
    apply Keeps.bind
    · intro t ht
      rwa [storageDeviceAt_readOnly index t]
    · exact fun device => .bind (.check _) fun _ => .bind (fun _ h => h) fun _ => .check _
  exact hkeeps _ rfl

end KernelBoot.Drivers
