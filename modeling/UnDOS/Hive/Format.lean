import UnDOS.Lib.ByteStore

/-!
# The Hive File Format

The on-disk structures of a configuration hive (`configuration_manager_io.hpp`):
a 32-byte HEADER, then a chain of 4096-byte INDEX BLOCKs, each immediately
followed by its paired 4096-byte NAME BLOCK and by the pair's DATA REGION.

Every field is little-endian and sits at the offset the C++ struct gives it.
Integers keep the width of the source, so a cast to `uint32_t` is `UInt32.ofNat`.
-/

namespace UnDOS.Hive

open UnDOS.Lib

/-- A key name, as the bytes of the source's `string_view`. -/
abbrev Name := List UInt8

/-! ## Key hashing -/

/-- `fnv1a64::hash`. -/
def fnv1a64 (seed : UInt64) (name : Name) : UInt64 :=
  name.foldl (fun h b => (h ^^^ b.toUInt64) * 1099511628211) seed

/-- `ConfigurationKey::from_string`: FNV-1a seeded by `ConfigurationKeyTag::seed`. -/
def configurationKey (name : Name) : UInt64 := fnv1a64 18366205674763934000 name

/-! ## Value types -/

/-- `ConfigurationValueType`.  An on-disk type byte is cast without a check, so a
    byte that names no enumerator is a value of its own. -/
inductive ConfigurationValueType where
  | invalid | boolean | uint32 | uint64 | sint32 | sint64 | string
  | unknown (raw : { r : UInt8 // 7 ≤ r })
deriving DecidableEq

namespace ConfigurationValueType

/-- `static_cast<uint8_t>(valueType)`. -/
def toRaw : ConfigurationValueType → UInt8
  | invalid => 0
  | boolean => 1
  | uint32 => 2
  | uint64 => 3
  | sint32 => 4
  | sint64 => 5
  | string => 6
  | unknown raw => raw.1

/-- `static_cast<ConfigurationValueType>(raw)`. -/
def ofRaw (raw : UInt8) : ConfigurationValueType :=
  if h : 7 ≤ raw then unknown ⟨raw, h⟩
  else if raw = 0 then invalid
  else if raw = 1 then boolean
  else if raw = 2 then uint32
  else if raw = 3 then uint64
  else if raw = 4 then sint32
  else if raw = 5 then sint64
  else string

@[simp] theorem ofRaw_toRaw (t : ConfigurationValueType) : ofRaw t.toRaw = t := by
  cases t with
  | unknown raw =>
    obtain ⟨r, hr⟩ := raw
    exact dif_pos hr
  | invalid | boolean | uint32 | uint64 | sint32 | sint64 | string => rfl

end ConfigurationValueType

/-! ## Layout constants -/

/-- `sizeof(ConfigurationFileHeader)`, where the first INDEX BLOCK starts. -/
def headerBytes : Nat := 32
/-- `sizeof(ConfigurationIndexBlock)` and `sizeof(ConfigurationNameBlock)`. -/
def blockBytes : Nat := 4096
/-- `BLOCK_PAIR_BYTES`. -/
def blockPairBytes : Nat := 8192
/-- `ENTRIES_PER_INDEX_BLOCK`. -/
def entriesPerIndexBlock : Nat := 127
/-- `ENTRIES_PER_NAME_BLOCK`. -/
def entriesPerNameBlock : Nat := 56
/-- `NAME_LENGTH`. -/
def nameLength : Nat := 64
/-- `NO_NAME_ENTRY`. -/
def noNameEntry : UInt16 := 0xFFFF

/-- The file offset of slot `slot` of the INDEX BLOCK at `block`. -/
def indexSlotOffset (block slot : Nat) : Nat := block + 8 + slot * 32

def pairedNameBlockOffset (indexBlockOffset : Nat) : Nat := indexBlockOffset + blockBytes

/-- The file offset of slot `slot` of the NAME BLOCK paired with `block`. -/
def nameSlotOffset (block slot : Nat) : Nat := pairedNameBlockOffset block + 8 + slot * 72

/-! ## Index entries -/

/-- `ConfigurationIndexEntry`. -/
structure ConfigurationIndexEntry where
  keyHash : UInt64
  parentHash : UInt64
  nameEntryIndex : UInt16 := noNameEntry
  valueType : UInt8 := 0
  reserved0 : UInt8 := 0
  offset : UInt32 := 0
  length : UInt32 := 0
  reserved1 : UInt32 := 0
deriving DecidableEq

namespace ConfigurationIndexEntry

/-- The 32 bytes of an index entry. -/
def encode (e : ConfigurationIndexEntry) : List UInt8 :=
  leBytes 8 e.keyHash.toNat ++ (leBytes 8 e.parentHash.toNat ++
  (leBytes 2 e.nameEntryIndex.toNat ++ ([e.valueType] ++ ([e.reserved0] ++
  (leBytes 4 e.offset.toNat ++ (leBytes 4 e.length.toNat ++ leBytes 4 e.reserved1.toNat))))))

/-- An index entry read back from its bytes. -/
def decode (bs : List UInt8) : ConfigurationIndexEntry where
  keyHash := UInt64.ofNat (leNat (bs.take 8))
  parentHash := UInt64.ofNat (leNat ((bs.drop 8).take 8))
  nameEntryIndex := UInt16.ofNat (leNat ((bs.drop 16).take 2))
  valueType := bs.getD 18 0
  reserved0 := bs.getD 19 0
  offset := UInt32.ofNat (leNat ((bs.drop 20).take 4))
  length := UInt32.ofNat (leNat ((bs.drop 24).take 4))
  reserved1 := UInt32.ofNat (leNat ((bs.drop 28).take 4))

@[simp] theorem encode_length (e : ConfigurationIndexEntry) : e.encode.length = 32 := by
  simp [encode]

@[simp] theorem decode_encode (e : ConfigurationIndexEntry) : decode e.encode = e := by
  have h64 : ∀ v : UInt64, UInt64.ofNat (leNat (leBytes 8 v.toNat)) = v := by
    intro v
    rw [leNat_leBytes_of_lt (by simpa using v.toNat_lt), UInt64.ofNat_toNat]
  have h32 : ∀ v : UInt32, UInt32.ofNat (leNat (leBytes 4 v.toNat)) = v := by
    intro v
    rw [leNat_leBytes_of_lt (by simpa using v.toNat_lt), UInt32.ofNat_toNat]
  have h16 : ∀ v : UInt16, UInt16.ofNat (leNat (leBytes 2 v.toNat)) = v := by
    intro v
    rw [leNat_leBytes_of_lt (by simpa using v.toNat_lt), UInt16.ofNat_toNat]
  simp [encode, decode, List.drop_append, h64, h32, h16]

theorem encode_take_keyHash (e : ConfigurationIndexEntry) :
    leNat (e.encode.take 8) = e.keyHash.toNat := by
  have hlt : e.keyHash.toNat < 256 ^ 8 := by simpa using e.keyHash.toNat_lt
  simp [encode, leNat_leBytes_of_lt hlt]

end ConfigurationIndexEntry

/-! ## Name entries and blocks -/

/-- The 72 bytes `PersistNameEntry` writes: the hash, then the name cut to
    `NAME_LENGTH` and padded with zeros. -/
def encodeNameEntry (keyHash : UInt64) (name : Name) : List UInt8 :=
  leBytes 8 keyHash.toNat ++
    (name.take nameLength ++ List.replicate (nameLength - (name.take nameLength).length) 0)

@[simp] theorem encodeNameEntry_length (keyHash : UInt64) (name : Name) :
    (encodeNameEntry keyHash name).length = 72 := by
  simp only [encodeNameEntry, nameLength, List.length_append, leBytes_length,
    List.length_replicate, List.length_take]
  omega

/-- The bytes of a default-constructed INDEX BLOCK: every field is zero except
    `nameEntryIndex`, which defaults to `NO_NAME_ENTRY`. -/
def freshIndexBlock : List UInt8 :=
  List.replicate 8 0 ++
    ((List.replicate entriesPerIndexBlock
      (ConfigurationIndexEntry.encode { keyHash := 0, parentHash := 0 })).flatten ++
    List.replicate 24 0)

/-- The bytes of a default-constructed NAME BLOCK. -/
def freshNameBlock : List UInt8 := List.replicate blockBytes 0

@[simp] theorem freshIndexBlock_length : freshIndexBlock.length = blockBytes := by
  simp [freshIndexBlock, entriesPerIndexBlock, blockBytes]

@[simp] theorem freshNameBlock_length : freshNameBlock.length = blockBytes := by
  simp [freshNameBlock]

/-- The HEADER `FormatEmptyConfigurationFile` writes. -/
def emptyHeader : List UInt8 :=
  [67, 70, 71, 49] ++ (leBytes 2 1 ++ (leBytes 2 0 ++ (leBytes 2 0 ++ (List.replicate 6 0 ++
  (leBytes 4 headerBytes ++ (leBytes 4 (headerBytes + blockBytes) ++
  (leBytes 4 (headerBytes + blockPairBytes) ++ leBytes 4 0)))))))

end UnDOS.Hive
