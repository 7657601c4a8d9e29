import UnDOS.Kernel.Error
import UnDOS.Lib.Stateful

/-!
# ATA Channel

`disk_ata/ata.cpp`: the wait routines, the recovery of a channel, and `Ata_Transfer` with the
sector and batch routines under it.  Two drives share a channel, whose mutex is held for a whole
transfer, so transfers follow each other.

The state is the `BusContext` of the channel with the list of everything that crossed the bus,
newest first.  What the hardware answers may depend on all of that list.
-/

namespace UnDOS.Disk

open UnDOS.Kernel

/-- `kstd::error_code`: `none` is success. -/
abbrev ErrorCode := Option KernelError

def kAtaSectorSize : Nat := 512

/-! ## The bus -/

/-- The registers of the command block that the driver writes. -/
inductive Register where
  | features | sectorCount | lbaLow | lbaMid | lbaHigh | drive | command
deriving DecidableEq

/-- The loops that wait for a status. -/
inductive Wait where
  /-- After a drive was selected. -/
  | selection
  /-- For the sectors of `Ata_ReadBatch`, and after the last one. -/
  | readData | readDone
  /-- For the sector of `Ata_Sector`, and after it. -/
  | sectorData | sectorDone
  /-- After a cache flush. -/
  | flush
  /-- After a reset. -/
  | reset
deriving DecidableEq

/-- What crosses the bus. -/
inductive Event where
  | out (register : Register) (value : UInt8)
  /-- The control register. -/
  | control (value : UInt8)
  | outData (word : UInt16)
  | inData (word : UInt16)
  /-- A status byte read for the delay only. -/
  | skipped (value : UInt8)
  /-- A status byte that a wait looked at. -/
  | status (wait : Wait) (value : UInt8)
  /-- Not an access: a wait used up its polls. -/
  | exhausted (wait : Wait)
  /-- The low half of `KE_TIME_GetSystemTime`. -/
  | clock (now : UInt32)
deriving DecidableEq

/-- What the hardware answers after the events of a list. -/
structure Drives where
  status : List Event → UInt8
  data : List Event → UInt16
  clock : List Event → UInt32

/-- `BusContext`, and what crossed the bus. -/
structure BusContext where
  ioBase : UInt16
  ctrlBase : UInt16
  unusable : Bool := false
  trace : List Event := []

abbrev AtaM := StateM BusContext

/-- Record an event. -/
def emit (e : Event) : AtaM Unit := modifyGet fun c => ((), { c with trace := e :: c.trace })

def markUnusable : AtaM Unit := modifyGet fun c => ((), { c with unusable := true })

/-- `HAL_IO_Out8` on a register of the command block. -/
def out8 (register : Register) (value : UInt8) : AtaM Unit := emit (.out register value)

/-! ## Status bits -/

/-- No drive drives the bus. -/
def floating (status : UInt8) : Bool := status == 0 || status == 0xff

/-- BSY. -/
def busy (status : UInt8) : Bool := status &&& 0x80 != 0

/-- DRQ. -/
def dataRequest (status : UInt8) : Bool := status &&& 0x08 != 0

/-- ERR or DF. -/
def failed (status : UInt8) : Bool := status &&& 0x21 != 0

section Transfers

variable (d : Drives)

/-! ## Waiting -/

/-- A status read by the wait `wait`. -/
def readStatus (wait : Wait) : AtaM UInt8 := do
  let c ← get
  emit (.status wait (d.status c.trace))
  return d.status c.trace

/-- `n` status reads whose value is discarded. -/
def skipStatus : Nat → AtaM Unit
  | 0 => pure ()
  | n + 1 => do
    let c ← get
    emit (.skipped (d.status c.trace))
    skipStatus n

/-- The polls of `AtaWait`. -/
def ataWaitPolls (wait : Wait) (data checkError : Bool) : Nat → AtaM ErrorCode
  | 0 => do
    emit (.exhausted wait)
    return some .timeout
  | polls + 1 => do
    let status ← readStatus d wait
    if floating status then return some .deviceNotReady
    else if busy status then ataWaitPolls wait data checkError polls
    else if checkError && failed status then return some .deviceError
    else if !data || dataRequest status then return none
    else ataWaitPolls wait data checkError polls

def ataWait (wait : Wait) (data checkError : Bool) : AtaM ErrorCode := do
  skipStatus d 4
  ataWaitPolls d wait data checkError 1000000

/-- `AtaReadWaitResult`. -/
structure AtaReadWaitResult where
  status : ErrorCode := none
  uncertain : Bool := false

/-- The polls of `AtaWaitReadStatus`. -/
def ataWaitReadPolls (wait : Wait) (expectData : Bool) : Nat → AtaM AtaReadWaitResult
  | 0 => do
    emit (.exhausted wait)
    return { status := some .timeout, uncertain := true }
  | polls + 1 => do
    let status ← readStatus d wait
    if floating status then return { status := some .deviceNotReady, uncertain := true }
    else if busy status then ataWaitReadPolls wait expectData polls
    else if failed status then
      return { status := some .deviceError, uncertain := dataRequest status }
    else if dataRequest status == expectData then return {}
    else ataWaitReadPolls wait expectData polls

def ataWaitReadStatus (wait : Wait) (expectData : Bool) : AtaM AtaReadWaitResult :=
  ataWaitReadPolls d wait expectData 1000000

/-! ## Recovery -/

def readClock : AtaM UInt32 := do
  let c ← get
  emit (.clock (d.clock c.trace))
  return d.clock c.trace

/-- The ticks seen within the polls, two at most. -/
def awaitTicks (lastTime : UInt32) (elapsedTicks : Nat) : Nat → AtaM Nat
  | 0 => return elapsedTicks
  | polls + 1 => do
    if elapsedTicks < 2 then
      let now ← readClock d
      if now != lastTime then awaitTicks now (elapsedTicks + 1) polls
      else awaitTicks lastTime elapsedTicks polls
    else return elapsedTicks

/-- The polls that follow a reset. -/
def awaitIdle : Nat → AtaM Unit
  | 0 => markUnusable
  | polls + 1 => do
    let status ← readStatus d .reset
    if !floating status && !busy status && !dataRequest status && !failed status then return ()
    else awaitIdle polls

def ataRecoverChannel : AtaM Unit := do
  let c ← get
  if c.ctrlBase == 0 then markUnusable
  else
    emit (.control 0x04)
    let lastTime ← readClock d
    let elapsedTicks ← awaitTicks d lastTime 0 1000000
    emit (.control 0x00)
    if elapsedTicks < 2 then markUnusable
    else
      skipStatus d 4
      awaitIdle d 100000

/-! ## Drives -/

/-- The link from a disk to the bus device of its channel. -/
structure Pdo where
  /-- `attachedDevice` is a bus device. -/
  attachedBus : Bool := true
  /-- That device has a `BusContext`. -/
  busContext : Bool := true

/-- `AtaContext`, less the strings. -/
structure AtaContext where
  pdo : Option Pdo := some {}
  isAtapi : Bool := false
  isMaster : Bool
  sectorCount : Nat

/-- The sectors of the drive that LBA28 reaches. -/
def AtaContext.capacitySectors (disk : AtaContext) : Nat := min disk.sectorCount 0x10000000

/-- The bytes of those sectors. -/
def AtaContext.capacity (disk : AtaContext) : Nat := disk.capacitySectors * kAtaSectorSize

/-- A device given to the driver. -/
structure Device where
  /-- `deviceType` is `Disk`. -/
  isDisk : Bool := true
  deviceExtension : Option AtaContext

/-- The value of the drive register. -/
def driveSelect (disk : AtaContext) (lba : Nat) : UInt8 :=
  (if disk.isMaster then (0xe0 : UInt8) else 0xf0) ||| UInt8.ofNat ((lba >>> 24) &&& 15)

/-- Select the drive and let the selection settle. -/
def selectDrive (disk : AtaContext) (lba : Nat) : AtaM ErrorCode := do
  out8 .drive (driveSelect disk lba)
  skipStatus d 4
  ataWait d .selection false false

/-- The registers of a command on `sectorCount` sectors from `lba`, and the command. -/
def issue (sectorCount : UInt8) (lba : Nat) (command : UInt8) : AtaM Unit := do
  out8 .features 0
  out8 .sectorCount sectorCount
  out8 .lbaLow (UInt8.ofNat lba)
  out8 .lbaMid (UInt8.ofNat (lba >>> 8))
  out8 .lbaHigh (UInt8.ofNat (lba >>> 16))
  out8 .command command

/-- `n` words from the data register, as bytes. -/
def inWords : Nat → AtaM (List UInt8)
  | 0 => return []
  | n + 1 => do
    let c ← get
    let word := d.data c.trace
    emit (.inData word)
    let rest ← inWords n
    return word.toUInt8 :: (word >>> 8).toUInt8 :: rest

/-- `n` words of the sector to the data register, from byte `i` on. -/
def outWords (sector : List UInt8) (i : Nat) : Nat → AtaM Unit
  | 0 => return ()
  | n + 1 => do
    emit (.outData ((sector.getD i 0).toUInt16 ||| ((sector.getD (i + 1) 0).toUInt16 <<< 8)))
    outWords sector (i + 2) n

/-- `Ata_Sector`, and the sector after it. -/
def ataSector (disk : AtaContext) (lba : Nat) (sector : List UInt8) (write : Bool) :
    AtaM (List UInt8 × ErrorCode) := do
  match ← selectDrive d disk lba with
  | some status => return (sector, some status)
  | none =>
    issue 1 lba (if write then 0x30 else 0x20)
    match ← ataWait d .sectorData true true with
    | some status => return (sector, some status)
    | none =>
      if write then
        outWords sector 0 (kAtaSectorSize / 2)
        return (sector, ← ataWait d .sectorDone false true)
      else
        let sector ← inWords d (kAtaSectorSize / 2)
        return (sector, ← ataWait d .sectorDone false true)

/-- The sectors of `Ata_ReadBatch` still to come: the bytes stored, and the status. -/
def readSectors : Nat → AtaM (List UInt8 × ErrorCode)
  | 0 => do
    let completed ← ataWaitReadStatus d .readDone false
    if completed.status.isSome then
      if completed.uncertain then ataRecoverChannel d
      return ([], completed.status)
    else return ([], none)
  | sectors + 1 => do
    let ready ← ataWaitReadStatus d .readData true
    if ready.status.isSome then
      if ready.uncertain then ataRecoverChannel d
      return ([], ready.status)
    else
      let sector ← inWords d (kAtaSectorSize / 2)
      let (rest, status) ← readSectors sectors
      return (sector ++ rest, status)

def ataReadBatch (disk : AtaContext) (lba sectorCount : Nat) : AtaM (List UInt8 × ErrorCode) := do
  match ← selectDrive d disk lba with
  | some status => return ([], some status)
  | none =>
    issue (if sectorCount = 256 then 0 else UInt8.ofNat sectorCount) lba 0x20
    readSectors d sectorCount

/-! ## Transfers -/

/-- A range of bytes on the drive.  `Ata_Transfer` checks the bounds once, at its start. -/
structure Extent (disk : AtaContext) where
  position : Nat
  remaining : Nat
  fits : position + remaining ≤ disk.capacity

namespace Extent

variable {disk : AtaContext}

/-- The range without its first `n` bytes. -/
def advance (e : Extent disk) (n : Nat) (hn : n ≤ e.remaining) : Extent disk where
  position := e.position + n
  remaining := e.remaining - n
  fits := by
    have := e.fits
    omega

/-- The sector of the first byte. -/
def lba (e : Extent disk) : Nat := e.position / kAtaSectorSize

/-- Where in its sector the first byte is. -/
def inSector (e : Extent disk) : Nat := e.position % kAtaSectorSize

/-- The bytes of the range in that sector. -/
def count (e : Extent disk) : Nat := min e.remaining (kAtaSectorSize - e.inSector)

/-- The sectors of the next batch. -/
def batch (e : Extent disk) : Nat :=
  min (min 256 (min (disk.capacitySectors - e.lba) (0x10000000 - e.lba)))
    (e.remaining / kAtaSectorSize)

theorem count_le (e : Extent disk) : e.count ≤ e.remaining := Nat.min_le_left _ _

theorem batch_bytes_le (e : Extent disk) : e.batch * kAtaSectorSize ≤ e.remaining :=
  Nat.le_trans (Nat.mul_le_mul_right _ (Nat.min_le_right _ _)) (Nat.div_mul_le_self _ _)

theorem lba_lt (e : Extent disk) (h : 0 < e.remaining) : e.lba < disk.capacitySectors := by
  have hfits := e.fits
  unfold AtaContext.capacity at hfits
  exact (Nat.div_lt_iff_lt_mul (by decide)).mpr (by omega)

theorem batch_pos (e : Extent disk) (h : kAtaSectorSize ≤ e.remaining) : 0 < e.batch := by
  have hlba : e.lba < disk.capacitySectors := e.lba_lt (Nat.lt_of_lt_of_le (by decide) h)
  have hlba28 : e.lba < 0x10000000 := Nat.lt_of_lt_of_le hlba (Nat.min_le_right _ _)
  have hsectors : 0 < e.remaining / kAtaSectorSize := Nat.div_pos h (by decide)
  unfold batch
  omega

theorem count_pos (e : Extent disk) (h : 0 < e.remaining) : 0 < e.count := by
  have hin : e.inSector < kAtaSectorSize := Nat.mod_lt _ (by decide)
  unfold count
  omega

end Extent

variable {disk : AtaContext}

/-- The end of a read, less than a sector: what was stored, and the status. -/
def readTail (e : Extent disk) : AtaM (List UInt8 × ErrorCode) := do
  if e.remaining = 0 then return ([], none)
  else
    let (sector, status) ← ataReadBatch d disk e.lba 1
    if status.isSome then return ([], status)
    else return (sector.take e.remaining, none)

/-- The batches of a read from a sector boundary, and its end. -/
def readBatches (e : Extent disk) : AtaM (List UInt8 × ErrorCode) := do
  if _h : kAtaSectorSize ≤ e.remaining then
    let (bytes, status) ← ataReadBatch d disk e.lba e.batch
    if status.isSome then return (bytes, status)
    else
      let (rest, status) ← readBatches (e.advance (e.batch * kAtaSectorSize) e.batch_bytes_le)
      return (bytes ++ rest, status)
  else readTail d e
termination_by e.remaining
decreasing_by
  have hpos := Nat.mul_pos (e.batch_pos _h) (show 0 < kAtaSectorSize by decide)
  have hle := e.batch_bytes_le
  simp only [Extent.advance]
  omega

/-- The reading half of `Ata_Transfer`. -/
def readExtent (e : Extent disk) : AtaM (List UInt8 × ErrorCode) := do
  if e.inSector = 0 then readBatches d e
  else
    let (sector, status) ← ataReadBatch d disk e.lba 1
    if status.isSome then return ([], status)
    else
      let (rest, status) ← readBatches d (e.advance e.count e.count_le)
      return ((sector.drop e.inSector).take e.count ++ rest, status)

/-- The sector that a write changes in part, read first. -/
def partialSector (e : Extent disk) : AtaM (List UInt8 × ErrorCode) := do
  if e.inSector ≠ 0 ∨ e.count ≠ kAtaSectorSize then
    ataReadBatch d disk e.lba 1
  else return (List.replicate kAtaSectorSize 0, none)

/-- One round of a write: the sector that holds the first byte, and a flush. -/
def writeSector (e : Extent disk) (writeBuffer : List UInt8) : AtaM ErrorCode := do
  let (sector, status) ← partialSector d e
  if status.isSome then return status
  else
    let sector := sector.take e.inSector ++ writeBuffer.take e.count ++
      sector.drop (e.inSector + e.count)
    let (_, status) ← ataSector d disk e.lba sector true
    if status.isSome then return status
    else
      out8 .command 0xe7
      ataWait d .flush false true

/-- The writing half of `Ata_Transfer`: the bytes written, and the status. -/
def writeExtent (e : Extent disk) (writeBuffer : List UInt8) : AtaM (Nat × ErrorCode) := do
  if _h : 0 < e.remaining then
    let status ← writeSector d e writeBuffer
    if status.isSome then return (0, status)
    else
      let (rest, status) ← writeExtent (e.advance e.count e.count_le) (writeBuffer.drop e.count)
      return (e.count + rest, status)
  else return (0, none)
termination_by e.remaining
decreasing_by
  have hpos := e.count_pos _h
  have hle := e.count_le
  simp only [Extent.advance]
  omega

/-- What a transfer is asked for: `Ata_Read` gives the size of its buffer, `Ata_Write` its bytes. -/
inductive Buffer where
  | read (size : Nat)
  | write (bytes : List UInt8)

def Buffer.size : Buffer → Nat
  | .read size => size
  | .write bytes => bytes.length

/-- What a transfer returns: the bytes read, `transferred`, and the status. -/
structure Transferred where
  bytes : List UInt8 := []
  transferred : Nat := 0
  status : ErrorCode

def ataTransfer (device : Option Device) (offset : Nat) (buffer : Buffer) : AtaM Transferred := do
  match device with
  | none => return { status := some .unsupported }
  | some device =>
    if !device.isDisk then return { status := some .unsupported }
    else
      match device.deviceExtension with
      | none => return { status := some .unsupported }
      | some disk =>
        if disk.isAtapi then return { status := some .unsupported }
        else
          match disk.pdo with
          | none => return { status := some .unsupported }
          | some pdo =>
            if h : offset > disk.capacity ∨ buffer.size > disk.capacity - offset then
              return { status := some .outOfRange }
            else if buffer.size = 0 then return { status := none }
            else if !pdo.attachedBus then return { status := some .deviceError }
            else
              let c ← get
              if !pdo.busContext || c.ioBase == 0 then return { status := some .deviceNotReady }
              else if c.unusable then return { status := some .deviceNotReady }
              else
                let e : Extent disk :=
                  { position := offset, remaining := buffer.size, fits := by omega }
                match buffer with
                | .read _ =>
                  let (bytes, status) ← readExtent d e
                  return { bytes := bytes, transferred := bytes.length, status := status }
                | .write bytes =>
                  let (transferred, status) ← writeExtent d e bytes
                  return { transferred := transferred, status := status }

/-- A call of the driver on one of the drives. -/
structure Request where
  device : Option Device
  offset : Nat
  buffer : Buffer

/-- The channel after the transfers, in order. -/
def serve (c : BusContext) (requests : List Request) : BusContext :=
  requests.foldl (fun c r => ((ataTransfer d r.device r.offset r.buffer).run c).2) c

end Transfers

end UnDOS.Disk
