import Mathlib.Order.ConditionallyCompleteLattice.Indexed
import Mathlib.Data.Int.ConditionallyCompleteOrder
import Mathlib.Data.Prod.Lex

/-!
# Version headers and their canonical order

The header of one `xl.meta` version entry (`FileMetaVersionHeader`) and the
predicates the listing and merge paths key off. A UUID is its 128-bit value and
a signature the 32-bit value of its four bytes read big-endian, so Rust's
byte-wise array order is the numeric order of these words.
-/

namespace Rustfs.Filemeta

open Bool

abbrev Bytes := List UInt8

abbrev Uuid := BitVec 128

def Uuid.nil : Uuid := 0#128

def Uuid.isNil (id : Uuid) : Bool := id = Uuid.nil

/-- First and last instant of the `time` crate's default calendar, years
-9999 to 9999, in nanoseconds since the Unix epoch. -/
def minUnixNanos : Int := -377705116800000000000

def maxUnixNanos : Int := 253402300799999999999

/-- Equality and order of `OffsetDateTime` are those of the instant, so the UTC
nanosecond count is the whole value. -/
structure OffsetDateTime where
  unixTimestampNanos : Int
  inRange : minUnixNanos ≤ unixTimestampNanos ∧ unixTimestampNanos ≤ maxUnixNanos
  deriving DecidableEq

namespace OffsetDateTime

def unixEpoch : OffsetDateTime := ⟨0, by decide⟩

theorem sample_in_range :
    minUnixNanos ≤ 1700000000000000000 ∧ 1700000000000000000 ≤ maxUnixNanos := by decide

def fromUnixTimestampNanos (nanos : Int) : Option OffsetDateTime :=
  if range : minUnixNanos ≤ nanos ∧ nanos ≤ maxUnixNanos then some ⟨nanos, range⟩ else none

instance : LT OffsetDateTime := ⟨fun a b => a.unixTimestampNanos < b.unixTimestampNanos⟩

instance : DecidableRel (α := OffsetDateTime) (· < ·) := fun a b =>
  inferInstanceAs (Decidable (a.unixTimestampNanos < b.unixTimestampNanos))

end OffsetDateTime

inductive VersionType
  | invalid
  | object
  | delete
  | legacy
  deriving DecidableEq, Repr

namespace VersionType

def toU8 : VersionType → UInt8
  | invalid => 0
  | object => 1
  | delete => 2
  | legacy => 3

def fromU8 (n : UInt8) : VersionType :=
  if n = 1 then object
  else if n = 2 then delete
  else if n = 3 then legacy
  else invalid

@[simp] theorem from_u8_to_u8 (t : VersionType) : fromU8 t.toU8 = t := by
  cases t <;> rfl

theorem to_u8_injective : Function.Injective toU8 := by
  intro left right same
  rw [← from_u8_to_u8 left, same, from_u8_to_u8]

end VersionType

def flagFreeVersion : UInt8 := 1
def flagUsesDataDir : UInt8 := 2
def flagInlineData : UInt8 := 4

structure FileMetaVersionHeader where
  versionId : Option Uuid
  modTime : Option OffsetDateTime
  signature : BitVec 32
  versionType : VersionType
  flags : UInt8
  ecN : UInt8
  ecM : UInt8
  deriving DecidableEq

/-- Rust's derived order on `Option`: `None` sorts below every `Some`. -/
def optionLt {α : Type} [LT α] [DecidableRel (α := α) (· < ·)] : Option α → Option α → Bool
  | none, some _ => true
  | some left, some right => decide (left < right)
  | _, none => false

namespace FileMetaVersionHeader

/-- `FileMetaVersionHeader::default()`. -/
def default : FileMetaVersionHeader where
  versionId := none
  modTime := none
  signature := 0
  versionType := .invalid
  flags := 0
  ecN := 0
  ecM := 0

def hasEc (self : FileMetaVersionHeader) : Bool := 0 < self.ecM && 0 < self.ecN

def freeVersion (self : FileMetaVersionHeader) : Bool := self.flags &&& flagFreeVersion ≠ 0

def matchesEc (self o : FileMetaVersionHeader) : Bool :=
  if self.hasEc && o.hasEc then self.ecN = o.ecN && self.ecM = o.ecM else true

def matchesNotStrict (self o : FileMetaVersionHeader) : Bool :=
  let ok := self.versionId = o.versionId && self.versionType = o.versionType && self.matchesEc o
  -- All null versions share one id, so only the mod time tells them apart.
  if self.versionId = none || self.versionId = some Uuid.nil then
    ok && self.modTime = o.modTime
  else ok

def sortsBefore (self o : FileMetaVersionHeader) : Bool :=
  if self = o then false
  else if self.modTime ≠ o.modTime then optionLt o.modTime self.modTime
  else if self.versionType ≠ o.versionType then self.versionType.toU8 < o.versionType.toU8
  else if o.signature < self.signature then true
  else if self.signature < o.signature then false
  else if optionLt o.versionId self.versionId then true
  else if optionLt self.versionId o.versionId then false
  else if self.flags ≠ o.flags then o.flags < self.flags
  else false

/-- The lexicographic key behind `sortsBefore`. The erasure geometry
(`ecN`, `ecM`) is no part of it: two headers that differ in nothing else share
their key and are sorted before each other in neither direction. -/
abbrev SortKey :=
  (WithBot ℤ)ᵒᵈ ×ₗ (ℕ ×ₗ (ℕᵒᵈ ×ₗ ((WithBot ℕ)ᵒᵈ ×ₗ ℕᵒᵈ)))

/-- `None` below every `Some`, as a bottom element. -/
def optionKey {α β : Type} (key : α → β) : Option α → WithBot β
  | none => ⊥
  | some value => (key value : WithBot β)

def sortKey (h : FileMetaVersionHeader) : SortKey :=
  toLex (OrderDual.toDual (optionKey OffsetDateTime.unixTimestampNanos h.modTime),
    toLex (h.versionType.toU8.toNat,
      toLex (OrderDual.toDual h.signature.toNat,
        toLex (OrderDual.toDual (optionKey BitVec.toNat h.versionId),
          OrderDual.toDual h.flags.toNat))))

theorem option_key_lt {α β : Type} [LT α] [DecidableRel (α := α) (· < ·)] [Preorder β]
    (key : α → β) (agrees : ∀ a b, key a < key b ↔ a < b) (left right : Option α) :
    optionKey key left < optionKey key right ↔ optionLt left right = true := by
  cases left <;> cases right <;> simp [optionKey, optionLt, agrees]

theorem option_key_injective {α β : Type} (key : α → β) (injective : Function.Injective key) :
    Function.Injective (optionKey key) := by
  intro left right same
  cases left <;> cases right <;> simp_all [optionKey, injective.eq_iff]

theorem time_key_lt (left right : Option OffsetDateTime) :
    optionKey OffsetDateTime.unixTimestampNanos left <
        optionKey OffsetDateTime.unixTimestampNanos right ↔
      optionLt left right = true :=
  option_key_lt OffsetDateTime.unixTimestampNanos (fun _ _ => by rfl) left right

theorem time_key_injective : Function.Injective (optionKey OffsetDateTime.unixTimestampNanos) := by
  apply option_key_injective
  rintro ⟨left, _⟩ ⟨right, _⟩ same
  simpa using same

theorem time_not_lt (left right : Option OffsetDateTime) :
    optionLt left right = false ↔
      optionKey OffsetDateTime.unixTimestampNanos right ≤
        optionKey OffsetDateTime.unixTimestampNanos left := by
  rw [← not_eq_true, ← time_key_lt, not_lt]

theorem id_key_lt (left right : Option Uuid) :
    optionKey BitVec.toNat left < optionKey BitVec.toNat right ↔ optionLt left right = true :=
  option_key_lt BitVec.toNat (fun _ _ => BitVec.lt_def.symm) left right

theorem id_key_injective : Function.Injective (optionKey (α := Uuid) BitVec.toNat) :=
  option_key_injective _ fun _ _ same => BitVec.eq_of_toNat_eq same

/-- `sortsBefore` is the strict order of the keys, so it is irreflexive,
transitive and total up to the erasure geometry. -/
theorem sorts_before_iff (self o : FileMetaVersionHeader) :
    self.sortsBefore o = true ↔ self.sortKey < o.sortKey := by
  by_cases same : self = o
  · subst same
    simp [sortsBefore]
  simp only [sortKey, Prod.Lex.toLex_lt_toLex, OrderDual.toDual_lt_toDual,
    OrderDual.toDual_inj, time_key_injective.eq_iff, id_key_injective.eq_iff,
    ← BitVec.lt_def, BitVec.toNat_inj, UInt8.toNat_inj, VersionType.to_u8_injective.eq_iff]
  rw [sortsBefore, if_neg same]
  by_cases time : self.modTime = o.modTime
  case neg => simp [time, time_key_lt]
  by_cases type : self.versionType = o.versionType
  case neg => simp [time, type, UInt8.lt_iff_toNat_lt]
  rcases Nat.lt_trichotomy self.signature.toNat o.signature.toNat with less | equal | greater
  · simp [time, type, BitVec.lt_def, less, less.asymm, less.ne, ← BitVec.toNat_inj]
  · have signature : self.signature = o.signature := BitVec.eq_of_toNat_eq equal
    rcases lt_trichotomy (optionKey BitVec.toNat self.versionId)
        (optionKey BitVec.toNat o.versionId) with less | equal | greater
    · have differ : self.versionId ≠ o.versionId := fun id => less.ne (by rw [id])
      have notGreater : optionLt o.versionId self.versionId = false := by
        rw [← not_eq_true]
        exact fun flipped => less.asymm ((id_key_lt _ _).2 flipped)
      simp [time, type, signature, (id_key_lt _ _).1 less, notGreater, differ, less.asymm]
    · have id : self.versionId = o.versionId := id_key_injective equal
      have irreflexive : ¬ optionLt o.versionId o.versionId = true :=
        fun less => (lt_irrefl _) ((id_key_lt _ _).2 less)
      simp only [time, type, signature, id, irreflexive]
      by_cases flags : self.flags = o.flags <;> simp [flags, UInt8.lt_iff_toNat_lt]
    · simp [time, type, signature, (id_key_lt _ _).1 greater, greater]
  · simp [time, type, BitVec.lt_def, greater]

theorem not_sorts_before_iff (self o : FileMetaVersionHeader) :
    self.sortsBefore o = false ↔ o.sortKey ≤ self.sortKey := by
  rw [← not_eq_true, sorts_before_iff, not_lt]

theorem sorts_before_irrefl (h : FileMetaVersionHeader) : h.sortsBefore h = false := by
  simp [sortsBefore]

variable {a b : FileMetaVersionHeader}

theorem sorts_before_asymm (first : a.sortsBefore b = true) : b.sortsBefore a = false := by
  rw [← not_eq_true, sorts_before_iff]
  rw [sorts_before_iff] at first
  exact first.asymm

/-- A header that is not sorted before the other can be exchanged for it on the
left: the order is total up to headers sharing their key. -/
theorem sorts_before_of_not_of {a b c : FileMetaVersionHeader}
    (notBefore : a.sortsBefore b = false) (before : a.sortsBefore c = true) :
    b.sortsBefore c = true := by
  rw [not_sorts_before_iff] at notBefore
  rw [sorts_before_iff] at *
  exact notBefore.trans_lt before

theorem mod_time_le_of_sorts_before
    (before : a.sortsBefore b = true) : optionLt a.modTime b.modTime = false := by
  rw [sorts_before_iff, sortKey, sortKey, Prod.Lex.toLex_lt_toLex,
    OrderDual.toDual_lt_toDual] at before
  rw [time_not_lt]
  rcases before with less | ⟨equal, -⟩
  · exact less.le
  · exact (OrderDual.toDual_inj.1 equal).ge

theorem mod_time_le_of_not_sorts_before
    (notBefore : a.sortsBefore b = false) : optionLt b.modTime a.modTime = false := by
  rw [← not_eq_true, sorts_before_iff, sortKey, sortKey, Prod.Lex.toLex_lt_toLex,
    OrderDual.toDual_lt_toDual, time_key_lt] at notBefore
  rw [← not_eq_true]
  exact fun newer => notBefore (.inl newer)

end FileMetaVersionHeader

structure FileMetaShallowVersion where
  header : FileMetaVersionHeader
  /-- `FileMetaVersion::marshal_msg` of the version body. -/
  metaBytes : Bytes
  deriving DecidableEq

def FileMetaShallowVersion.default : FileMetaShallowVersion where
  header := .default
  metaBytes := []

end Rustfs.Filemeta
