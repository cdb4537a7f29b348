import Sysdarft.Proofs.Sectors

/-! # The range check of block devices

The check multiplies sector numbers by 512 in 64 bits, so it only sees them modulo `2^55`. A block whose end passes
`2^55` and comes out inside the image is let through; every other block is let through exactly when it lies inside
the image, and is then transferred whole.
-/

namespace Sysdarft.DiskImager

open Effects

variable {disk : DiskImager}

/-- The check as the source makes it, in sectors. -/
theorem transferInRange_iff :
    disk.transferInRange = true ↔ disk.sector_count.toNat % 2 ^ 55 ≠ 0 ∧
      (disk.start_sector.toNat + disk.sector_count.toNat) % 2 ^ 55 ≤ disk.device_size.toNat / 512 := by
  have start := disk.start_sector.isLt
  have count := disk.sector_count.isLt
  have size : (512 : Word).toNat = 512 := rfl
  have ended : ((disk.start_sector + disk.sector_count) * 512).toNat =
      (disk.start_sector.toNat + disk.sector_count.toNat) % 2 ^ 55 * 512 := by
    rw [BitVec.toNat_mul, BitVec.toNat_add, size]
    omega
  have length : (disk.sector_count * 512).toNat = disk.sector_count.toNat % 2 ^ 55 * 512 := by
    rw [BitVec.toNat_mul, size]
    omega
  have distributed : disk.start_sector * 512 + disk.sector_count * 512 = (disk.start_sector + disk.sector_count) * 512 :=
    BitVec.add_mul.symm
  have empty : disk.sector_count * 512 = 0 ↔ disk.sector_count.toNat % 2 ^ 55 = 0 := by
    rw [← BitVec.toNat_inj, length]
    change _ = 0 ↔ _
    omega
  simp only [transferInRange, distributed, Bool.and_eq_true, Bool.not_eq_true', decide_eq_false_iff_not, BitVec.lt_def,
    ended, beq_eq_false_iff_ne, ne_eq, empty, not_lt, Nat.le_div_iff_mul_le (show 0 < 512 by decide)]
  exact ⟨fun passed => ⟨passed.1.2, passed.2⟩, fun passed => ⟨⟨passed.2, passed.1⟩, passed.2⟩⟩

/-- The block that the guest asked for lies inside the image. -/
def InsideImage (disk : DiskImager) : Prop :=
  1 ≤ disk.sector_count.toNat ∧ disk.start_sector.toNat + disk.sector_count.toNat ≤ disk.device_size.toNat / 512

/-- The end of the block passes `2^55` sectors and comes out inside the image. -/
def WrapsInside (disk : DiskImager) : Prop :=
  2 ^ 55 ≤ disk.start_sector.toNat + disk.sector_count.toNat ∧
    (disk.start_sector.toNat + disk.sector_count.toNat) % 2 ^ 55 ≤ disk.device_size.toNat / 512 ∧
    disk.sector_count.toNat % 2 ^ 55 ≠ 0

instance (disk : DiskImager) : Decidable disk.InsideImage := inferInstanceAs (Decidable (_ ∧ _))

instance (disk : DiskImager) : Decidable disk.WrapsInside := inferInstanceAs (Decidable (_ ∧ _))

theorem transferInRange_iff_insideImage (straight : ¬ disk.WrapsInside) :
    disk.transferInRange = true ↔ disk.InsideImage := by
  have size := disk.device_size.isLt
  rw [transferInRange_iff]
  simp only [WrapsInside, InsideImage] at straight ⊢
  omega

/-! ## The transfers -/

theorem InsideImage.set (inside : disk.InsideImage) : disk.SetTo disk.start_sector.toNat disk.sector_count.toNat where
  start_sector := by rw [BitVec.ofNat_toNat, BitVec.setWidth_eq]
  sector_count := by rw [BitVec.ofNat_toNat, BitVec.setWidth_eq]
  nonempty := inside.1
  inside := inside.2

variable {host : Host} {device : DeviceIndex} {machine after : Machine}

/-- A read that succeeds passed the check and queues what lies in the image at the offset. -/
theorem requestRead_true (done : disk.requestRead host device (disk.drive.port .CMD_REQUEST_RD) machine = .ok true after) :
    disk.transferInRange = true ∧
      after = machine.withStream device (disk.drive.port .CMD_REQUEST_RD)
        (machine.stream device (disk.drive.port .CMD_REQUEST_RD) ++
          disk.contents (machine.image_files disk.file_name)) := by
  have apart : disk.drive.port .CMD_REQUEST_RD ≠ disk.drive.port .REG_SIZE := by
    rw [Ne, DiskDrive.port_inj]
    decide
  rcases Controller.requestRead_cases host device (disk.drive.port .CMD_REQUEST_RD) (.disk disk) machine with
    ⟨bytes, answered, -, queued⟩ | ⟨-, refused⟩ | ⟨-, starved⟩
  · simp only [Controller.answer, answer, if_neg apart] at answered
    obtain ⟨passed, same⟩ := Option.ite_none_right_eq_some.mp answered
    refine ⟨passed.2.1, ?_⟩
    rw [Option.some.inj same]
    injection done.symm.trans queued
  · cases done.symm.trans refused
  · cases done.symm.trans starved

/-- Without memory for the copy of the stream nothing is written. -/
private theorem requestWrite_starved
    (refused : ¬ host.allocates (machine.stream device (disk.drive.port .CMD_REQUEST_WR)).length) :
    disk.requestWrite host device (disk.drive.port .CMD_REQUEST_WR) machine ≠ .ok true after := by
  have start : disk.drive.port .CMD_REQUEST_WR ≠ disk.drive.port .REG_START_SEC := by
    rw [Ne, DiskDrive.port_inj]
    decide
  have count : disk.drive.port .CMD_REQUEST_WR ≠ disk.drive.port .REG_SEC_COUNT := by
    rw [Ne, DiskDrive.port_inj]
    decide
  have starved : allocate host (machine.stream device (disk.drive.port .CMD_REQUEST_WR)).length machine =
      .error .badAllocation machine := by
    rw [allocate, if_neg refused]
    rfl
  rw [requestWrite, if_neg start, if_neg count, if_pos rfl]
  by_cases passed : disk.transferInRange = true
  · simp only [passed, Bool.not_true, Bool.false_eq_true, if_false]
    rw [bind_ok (get_apply machine), bind_error starved]
    rintro ⟨⟩
  · simp only [Bool.not_eq_true] at passed
    simp only [passed, Bool.not_false, if_true]
    rintro ⟨⟩

/-- A write that succeeds passed the check and replaces the image at the offset by the whole stream. -/
theorem requestWrite_true
    (done : disk.requestWrite host device (disk.drive.port .CMD_REQUEST_WR) machine = .ok true after) :
    disk.transferInRange = true ∧
      (disk.sector_count * 512).toNat = (machine.stream device (disk.drive.port .CMD_REQUEST_WR)).length ∧
      after.image_files =
      (machine.withImage disk (machine.stream device (disk.drive.port .CMD_REQUEST_WR))).image_files := by
  by_cases granted : host.allocates (machine.stream device (disk.drive.port .CMD_REQUEST_WR)).length
  · rcases disk.requestWrite_cases host device machine granted with ⟨accepted, written⟩ | ⟨-, stopped, refused, -⟩
    · refine ⟨accepted.1, accepted.2.1, ?_⟩
      injection done.symm.trans written with _ same
      rw [same]
      rfl
    · cases done.symm.trans refused
  · exact absurd done (requestWrite_starved granted)

/-- Outside the checks a request moves nothing, whatever the host grants. -/
theorem request_refused (stopped : disk.transferInRange = false) (host : Host) (device : DeviceIndex) (machine : Machine) :
    disk.requestRead host device (disk.drive.port .CMD_REQUEST_RD) machine = .ok false machine ∧
      disk.requestWrite host device (disk.drive.port .CMD_REQUEST_WR) machine = .ok false machine := by
  have size : disk.drive.port .CMD_REQUEST_RD ≠ disk.drive.port .REG_SIZE := by
    rw [Ne, DiskDrive.port_inj]
    decide
  have start : disk.drive.port .CMD_REQUEST_WR ≠ disk.drive.port .REG_START_SEC := by
    rw [Ne, DiskDrive.port_inj]
    decide
  have count : disk.drive.port .CMD_REQUEST_WR ≠ disk.drive.port .REG_SEC_COUNT := by
    rw [Ne, DiskDrive.port_inj]
    decide
  constructor
  · simp only [requestRead, if_neg size, if_true, stopped, Bool.not_false, pure_apply]
  · simp only [requestWrite, if_neg start, if_neg count, if_true, stopped, Bool.not_false, pure_apply]

/-- Where nothing is out of the way, a read inside the image queues its block. -/
theorem requestRead_served (inside : disk.InsideImage) (serves : host.Serves disk.device_size)
    (granted : host.allocates
      ((machine.stream device (disk.drive.port .CMD_REQUEST_RD)).length + disk.sector_count.toNat * 512)) :
    disk.requestRead host device (disk.drive.port .CMD_REQUEST_RD) machine =
      .ok true (machine.withStream device (disk.drive.port .CMD_REQUEST_RD)
        (machine.stream device (disk.drive.port .CMD_REQUEST_RD) ++
          FlatMemory.read (machine.image_files disk.file_name).contents (disk.start_sector.toNat * 512)
            (disk.sector_count.toNat * 512))) := by
  have size : disk.drive.port .CMD_REQUEST_RD ≠ disk.drive.port .REG_SIZE := by
    rw [Ne, DiskDrive.port_inj]
    decide
  obtain ⟨range, length, seeks, moved⟩ := inside.set.accepts serves
  have block : disk.contents (machine.image_files disk.file_name) =
      FlatMemory.read (machine.image_files disk.file_name).contents (disk.start_sector.toNat * 512)
        (disk.sector_count.toNat * 512) := by
    rw [contents, inside.set.toNat_offset, inside.set.toNat_length]
  have buffer : host.allocates (disk.sector_count.toNat * 512) := serves.allocates _ inside.set.length_le
  simp only [requestRead, if_neg size, if_true, range, seeks, Bool.not_true, Bool.false_eq_true, if_false, bind_apply,
    allocate, length, buffer, pure_apply, moved, ne_eq, not_true_eq_false, get_apply, block]
  rw [insertStream_apply, FlatMemory.length_read, if_pos granted]

/-- Likewise a write that brings its block with it replaces the block of the image, and empties the stream. -/
theorem requestWrite_served (inside : disk.InsideImage) (serves : host.Serves disk.device_size)
    (queued : (machine.stream device (disk.drive.port .CMD_REQUEST_WR)).length = disk.sector_count.toNat * 512) :
    disk.requestWrite host device (disk.drive.port .CMD_REQUEST_WR) machine =
      .ok true ((machine.withImage disk (machine.stream device (disk.drive.port .CMD_REQUEST_WR))).withStream device
        (disk.drive.port .CMD_REQUEST_WR) []) := by
  have granted := serves.allocates _ inside.set.length_le
  rw [← queued] at granted
  rcases disk.requestWrite_cases host device machine granted with ⟨-, written⟩ | ⟨refused, -⟩
  · exact written
  · exact absurd (queued ▸ inside.set.accepts serves) refused

/-! ## The check -/

/-- The machine with other bytes in the block of the image that the guest asked for. -/
def putBlock (disk : DiskImager) (bytes : List Byte) (machine : Machine) : Machine :=
  { machine with
    image_files := Function.update machine.image_files disk.file_name
      { machine.image_files disk.file_name with
        contents := FlatMemory.write (machine.image_files disk.file_name).contents (disk.start_sector.toNat * 512) bytes } }

/-- The bytes of the block. -/
def getBlock (disk : DiskImager) (machine : Machine) : List Byte :=
  FlatMemory.read (machine.image_files disk.file_name).contents (disk.start_sector.toNat * 512)
    (disk.sector_count.toNat * 512)

/-- A request passes the checks exactly when its block lies inside the image. Then a host that serves the drive moves
exactly this block, and otherwise the request is refused and nothing is moved. A host that does not serve the drive
moves nothing else either when it reports a success. -/
structure SectorsChecked (disk : DiskImager) : Prop where
  passes : disk.transferInRange = true ↔ disk.InsideImage
  reads : ∀ (host : Host) (device : DeviceIndex) (machine : Machine), host.Serves disk.device_size →
    host.allocates ((machine.stream device (disk.drive.port .CMD_REQUEST_RD)).length + disk.sector_count.toNat * 512) →
    disk.requestRead host device (disk.drive.port .CMD_REQUEST_RD) machine =
      if disk.InsideImage then
        .ok true (machine.withStream device (disk.drive.port .CMD_REQUEST_RD)
          (machine.stream device (disk.drive.port .CMD_REQUEST_RD) ++ disk.getBlock machine))
      else .ok false machine
  writes : ∀ (host : Host) (device : DeviceIndex) (machine : Machine), host.Serves disk.device_size →
    (machine.stream device (disk.drive.port .CMD_REQUEST_WR)).length = disk.sector_count.toNat * 512 →
    disk.requestWrite host device (disk.drive.port .CMD_REQUEST_WR) machine =
      if disk.InsideImage then
        .ok true ((disk.putBlock (machine.stream device (disk.drive.port .CMD_REQUEST_WR)) machine).withStream device
          (disk.drive.port .CMD_REQUEST_WR) [])
      else .ok false machine
  refuses : ¬ disk.InsideImage → ∀ (host : Host) (device : DeviceIndex) (machine : Machine),
    disk.requestRead host device (disk.drive.port .CMD_REQUEST_RD) machine = .ok false machine ∧
      disk.requestWrite host device (disk.drive.port .CMD_REQUEST_WR) machine = .ok false machine
  readsOnly : ∀ (host : Host) (device : DeviceIndex) (machine after : Machine),
    disk.requestRead host device (disk.drive.port .CMD_REQUEST_RD) machine = .ok true after →
    after = machine.withStream device (disk.drive.port .CMD_REQUEST_RD)
      (machine.stream device (disk.drive.port .CMD_REQUEST_RD) ++ disk.getBlock machine)
  writesOnly : ∀ (host : Host) (device : DeviceIndex) (machine after : Machine),
    disk.requestWrite host device (disk.drive.port .CMD_REQUEST_WR) machine = .ok true after →
    (machine.stream device (disk.drive.port .CMD_REQUEST_WR)).length = disk.sector_count.toNat * 512 ∧
      after.image_files = (disk.putBlock (machine.stream device (disk.drive.port .CMD_REQUEST_WR)) machine).image_files

theorem InsideImage.withImage (inside : disk.InsideImage) (bytes : List Byte) :
    machine.withImage disk bytes = disk.putBlock bytes machine := by
  rw [Machine.withImage, putBlock, inside.set.toNat_offset]

/-- The checks are right for every block whose end does not wrap into the image, and for no other block. -/
theorem sectorsChecked_iff (disk : DiskImager) : SectorsChecked disk ↔ ¬ disk.WrapsInside := by
  constructor
  · rintro checked ⟨beyond, inside, some⟩
    have size := disk.device_size.isLt
    have fits := (checked.passes.mp (transferInRange_iff.mpr ⟨some, inside⟩)).2
    omega
  · intro straight
    have passes := transferInRange_iff_insideImage straight
    have refused (outside : ¬ disk.InsideImage) (host : Host) (device : DeviceIndex) (machine : Machine) :=
      request_refused (Bool.eq_false_iff.mpr (mt passes.mp outside)) host device machine
    refine ⟨passes, fun host device machine serves granted => ?_, fun host device machine serves queued => ?_, refused,
      fun host device machine after done => ?_, fun host device machine after done => ?_⟩
    · split_ifs with inside
      · exact requestRead_served inside serves granted
      · exact (refused inside host device machine).1
    · split_ifs with inside
      · rw [← inside.withImage]
        exact requestWrite_served inside serves queued
      · exact (refused inside host device machine).2
    · obtain ⟨passed, same⟩ := requestRead_true done
      have set := (passes.mp passed).set
      rw [same, contents, getBlock, set.toNat_offset, set.toNat_length]
    · obtain ⟨passed, length, same⟩ := requestWrite_true done
      have inside := passes.mp passed
      exact ⟨by rw [← length, inside.set.toNat_length], by rw [same, inside.withImage]⟩

/-- A hard disk of two sectors, set to one sector from sector `2^55` on. -/
def wrappingDisk : DiskImager where
  drive := .hardDisk
  file_name := "hdd"
  start_sector := BitVec.ofNat 64 (2 ^ 55)
  sector_count := 1
  device_size := 1024

/-- A machine with this disk. -/
def wrappingMachine : Machine :=
  { Machine.powerOn with device_list := [{ controller := .disk wrappingDisk, device_buffer := fun _ => [] }] }

/-- The request for sector `2^55` of a disk of two sectors is let through, and queues sector 0. -/
theorem not_sectorsChecked : ¬ ∀ disk : DiskImager, SectorsChecked disk := by
  intro every
  have refused := ((every wrappingDisk).refuses (by decide) Host.ample 0 wrappingMachine).1
  have answers : wrappingDisk.answer Host.ample wrappingMachine.image_files (wrappingDisk.drive.port .CMD_REQUEST_RD) =
      some (wrappingDisk.contents (wrappingMachine.image_files "hdd")) := by
    rw [answer, if_neg (by decide), if_pos (by decide)]
    rfl
  rcases Controller.requestRead_cases Host.ample 0 (wrappingDisk.drive.port .CMD_REQUEST_RD) (.disk wrappingDisk)
      wrappingMachine with ⟨bytes, -, -, queued⟩ | ⟨silent, -⟩ | ⟨-, starved⟩
  · cases queued.symm.trans refused
  · cases silent.symm.trans answers
  · cases starved.symm.trans refused

end Sysdarft.DiskImager
