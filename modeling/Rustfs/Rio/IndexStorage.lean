import Rustfs.Rio.CompressIndex
import Mathlib.Data.Int.ModEq

/-!
# Storing and loading the index

An index that was filled by successful additions is loaded from its stored form as it was reduced
if and only if the compressed offsets keep ahead of the prediction: the writer has no form for a
negative difference.
-/

namespace Rustfs.Rio

open List Option Library Index Outcome
open Library.ByteReader (Bytes)

def InRange (offset : Int) : Prop := 0 ≤ offset ∧ offset < 2 ^ 49

instance : DecidablePred InRange := fun _ => inferInstanceAs (Decidable (_ ∧ _))

/-- Filled by successful additions. -/
inductive Built : Index → Prop
  | new : Built Index.new
  | add {index next : Index} {compressedOffset uncompressedOffset : Int} (built : Built index)
      (compressed : InRange compressedOffset) (uncompressed : InRange uncompressedOffset)
      (added : index.add compressedOffset uncompressedOffset = .ok next) : Built next

def Index.addAll (additions : List (Int × Int)) (index : Index) : Except IoError Index :=
  additions.foldlM (fun index addition => index.add addition.1 addition.2) index

theorem add_all_built {additions : List (Int × Int)} {before index : Index} (built : Built before)
    (inRange : ∀ addition ∈ additions, InRange addition.1 ∧ InRange addition.2)
    (added : Index.addAll additions before = .ok index) : Built index := by
  induction additions generalizing before with
  | nil =>
    cases added
    exact built
  | cons addition additions ih =>
    obtain ⟨next, isNext, later⟩ := bind_eq_ok.1 added
    have here := inRange addition mem_cons_self
    have rest (other : Int × Int) (member : other ∈ additions) :=
      inRange other (mem_cons_of_mem addition member)
    exact ih (.add built here.1 here.2 isNext) rest later

structure Entries (info : List IndexInfo) : Prop where
  compressed : ∀ entry ∈ info, InRange entry.compressedOffset
  uncompressed : ∀ entry ∈ info, InRange entry.uncompressedOffset
  increasing : info.Pairwise fun earlier later =>
    earlier.uncompressedOffset < later.uncompressedOffset

theorem Entries.empty : Entries [] :=
  ⟨fun _ member => (nomatch member), fun _ member => (nomatch member), .nil⟩

theorem Entries.of_sublist {kept info : List IndexInfo} (entries : Entries info)
    (sublist : kept.Sublist info) : Entries kept where
  compressed entry member := entries.compressed entry (sublist.subset member)
  uncompressed entry member := entries.uncompressed entry (sublist.subset member)
  increasing := entries.increasing.sublist sublist

theorem Entries.concat {front : List IndexInfo} {entry : IndexInfo} (entries : Entries front)
    (compressed : InRange entry.compressedOffset) (uncompressed : InRange entry.uncompressedOffset)
    (last : ∀ earlier ∈ front, earlier.uncompressedOffset < entry.uncompressedOffset) :
    Entries (front ++ [entry]) where
  compressed other member := by
    rcases mem_append.1 member with inFront | isEntry
    · exact entries.compressed other inFront
    · rwa [mem_singleton.1 isEntry]
  uncompressed other member := by
    rcases mem_append.1 member with inFront | isEntry
    · exact entries.uncompressed other inFront
    · rwa [mem_singleton.1 isEntry]
  increasing := by
    rw [pairwise_append]
    refine ⟨entries.increasing, pairwise_singleton _ _, fun earlier inFront other isEntry => ?_⟩
    rw [mem_singleton.1 isEntry]
    exact last earlier inFront

structure Filled (index : Index) : Prop where
  estimate : index.estBlockUncomp = 0
  entries : Entries index.info
  totals : 2 ≤ index.info.length →
    InRange index.totalUncompressed ∧ InRange index.totalCompressed

theorem add_filled {index next : Index} {compressedOffset uncompressedOffset : Int}
    (filled : Filled index) (compressed : InRange compressedOffset)
    (uncompressed : InRange uncompressedOffset)
    (added : index.add compressedOffset uncompressedOffset = .ok next) : Filled next := by
  unfold add at added
  split at added
  · cases added
    refine ⟨filled.estimate, ?_, fun two => absurd two (Nat.not_succ_le_self 1)⟩
    exact Entries.empty.concat compressed uncompressed (fun _ member => (nomatch member))
  · rename_i latest isLatest
    obtain ⟨front, isInfo⟩ := getLast?_eq_some_iff.1 isLatest
    have ordered := filled.entries.increasing
    rw [isInfo, pairwise_append] at ordered
    have before : ∀ earlier ∈ front, earlier.uncompressedOffset < latest.uncompressedOffset :=
      fun earlier inFront => ordered.2.2 earlier inFront latest (mem_singleton_self _)
    have inFront : Entries front :=
      filled.entries.of_sublist (isInfo ▸ sublist_append_left front [latest])
    have latestRange := filled.entries.uncompressed latest (by simp [isInfo])
    split at added
    · cases added
      refine ⟨filled.estimate, ?_, fun two => filled.totals ?_⟩
      · simp only [isInfo, dropLast_concat]
        exact inFront.concat compressed latestRange before
      · simpa [isInfo] using two
    · split at added
      · cases added
      · split at added
        · cases added
        · split at added
          · cases added
            exact filled
          · cases added
            refine ⟨filled.estimate, ?_, fun _ => ⟨uncompressed, compressed⟩⟩
            apply filled.entries.concat compressed uncompressed
            intro earlier member
            have greater : latest.uncompressedOffset < uncompressedOffset := by
              omega
            rw [isInfo] at member
            rcases mem_append.1 member with inFront | isLast
            · exact (before earlier inFront).trans greater
            · rwa [mem_singleton.1 isLast]

variable {index : Index} {prev v : Int} {bytes : Bytes} {values : List Int} {flag : Bool}
  {info : List IndexInfo} {offsets : List Int} {uncompTotal compTotal : Int}

theorem built_filled (built : Built index) : Filled index := by
  induction built with
  | new => exact ⟨rfl, Entries.empty, fun two => absurd two (by decide)⟩
  | add built compressed uncompressed added ih => exact add_filled ih compressed uncompressed added

theorem keep_every_sublist {α : Type} (removeN left : Nat) (items : List α) :
    (Index.keepEvery removeN left items).Sublist items := by
  induction items generalizing left with
  | nil => rw [keepEvery]
  | cons item items ih =>
    cases left with
    | zero => exact (ih removeN).cons_cons item
    | succ left => exact (ih left).cons item

theorem keep_every_length {α : Type} {removeN left : Nat} (inside : left ≤ removeN)
    (items : List α) :
    (Index.keepEvery removeN left items).length * (removeN + 1) + left ≤ items.length + removeN := by
  induction items generalizing left with
  | nil => simpa [keepEvery] using inside
  | cons item items ih =>
    cases left with
    | zero =>
      have := ih (Nat.le_refl removeN)
      rw [keepEvery, length_cons, length_cons, Nat.add_mul]
      omega
    | succ left =>
      have := ih (Nat.le_of_succ_le inside)
      rw [keepEvery, length_cons]
      omega

theorem remove_count_enough {entries fuel removeN : Nat} (enough : entries ≤ removeN + fuel) :
    entries / (Index.removeCount 0 entries fuel removeN + 1) ≤ 1000 := by
  induction fuel generalizing removeN with
  | zero =>
    rw [removeCount, Nat.div_eq_of_lt (by omega)]
    exact Nat.zero_le _
  | succ fuel ih =>
    rw [removeCount]
    split
    · exact ih (by omega)
    · rename_i stopped
      rw [Int.zero_mul, not_and] at stopped
      exact Nat.le_of_not_lt (stopped (by decide))

theorem reduce_kept (estimate : index.estBlockUncomp = 0) :
    index.reduce.estBlockUncomp = 0 ∧ index.reduce.info.Sublist index.info ∧
      index.reduce.info.length ≤ 1001 := by
  unfold reduce
  have small : ¬(index.info.length < maxIndexEntries ∧ minIndexDist ≤ index.estBlockUncomp) := by
    rw [estimate]
    exact fun both => absurd both.2 (by decide)
  rw [if_neg small, estimate]
  refine ⟨by simp, keep_every_sublist _ _ _, ?_⟩
  set removeN := removeCount 0 index.info.length index.info.length
    ((index.info.length + 1) / maxIndexEntries) with isCount
  have few : index.info.length / (removeN + 1) ≤ 1000 := remove_count_enough (Nat.le_add_left _ _)
  have room := keep_every_length (Nat.zero_le removeN) index.info
  have below : index.info.length < 1001 * (removeN + 1) :=
    (Nat.div_lt_iff_lt_mul (Nat.succ_pos removeN)).1 (Nat.lt_succ_of_le few)
  have product : (keepEvery removeN 0 index.info).length * (removeN + 1) <
      1002 * (removeN + 1) := by omega
  exact Nat.le_of_lt_succ (Nat.lt_of_mul_lt_mul_right product)

theorem wrap_sum {v estimate : Int} (low : -2 ^ 62 ≤ v) (high : v < 2 ^ 62) (first : InRange prev)
    (added : InRange estimate) : wrapI64 (v + wrapI64 (prev + estimate)) = v + (prev + estimate) := by
  have atMost := first.2
  have addedMost := added.2
  have atLeast := first.1
  have addedLeast := added.1
  rw [@wrap_of_small (prev + estimate) (by omega) (by omega)]
  exact wrap_of_small (by omega) (by omega)

theorem write_some (inRange : InRange v) : ∃ bytes, writeVarint v = some bytes := by
  unfold writeVarint
  rw [if_neg (Int.not_lt.2 inRange.1)]
  apply Varint.encode_some
  have := inRange.2
  omega

theorem read_written (natural : 0 ≤ v) (written : writeVarint v = some bytes)
    (rest : Bytes) : readVarint (bytes ++ rest) = .ok (v, rest) := by
  unfold writeVarint at written
  rw [if_neg (Int.not_lt.2 natural)] at written
  have small := Varint.encode_lt written
  have decoded := Varint.decode_encode written (Nat.two_pow_pos 0) (by decide) rest
  rw [Nat.zero_add, Nat.pow_zero, Nat.mul_one] at decoded
  unfold readVarint
  rw [decoded]
  have isValue : asI64 v.toNat = v := by
    rw [as_i64_of_lt (by omega), Int.toNat_of_nonneg natural]
  simp only [isValue]

/-- A value whose last written byte ends it. -/
def Ending (v : Int) : Prop := 0 ≤ v ∨ v % 256 < 128

theorem read_negative (negative : v < 0) (ending : Ending v)
    (written : writeVarint v = some bytes) (rest : Bytes) :
    readVarint (bytes ++ rest) = .ok (v % 256, rest) := by
  have low : v % 256 < 128 := ending.resolve_left (Int.not_le.2 negative)
  have natural : 0 ≤ v % 256 := Int.emod_nonneg v (by decide)
  apply read_written natural
  unfold writeVarint at written ⊢
  rw [if_pos negative] at written
  rw [if_neg (Int.not_lt.2 natural), Varint.encode, if_pos (by omega)]
  exact written

theorem written_ends (written : writeVarint v = some bytes) :
    bytes.countP Varint.ends ≤ 1 ∧ (bytes.countP Varint.ends = 1 → Ending v) := by
  unfold writeVarint at written
  split at written
  · cases written
    refine ⟨countP_le_length, fun once => .inr ?_⟩
    have isEnd : Varint.ends (UInt8.ofNat (v % 256).toNat) = true := by
      by_contra notEnd
      rw [countP_cons_of_neg notEnd] at once
      cases once
    unfold Varint.ends at isEnd
    rw [UInt8.toNat_ofNat', decide_eq_true_eq] at isEnd
    omega
  · rename_i natural
    exact ⟨(Varint.encode_ends_once written).le, fun _ => .inl (Int.not_lt.1 natural)⟩

theorem write_all_cons {value : Int} (written : Index.writeAll (value :: values) = some bytes) :
    ∃ first others, writeVarint value = some first ∧ Index.writeAll values = some others ∧
      bytes = first ++ others := by
  obtain ⟨first, isFirst, continued⟩ := bind_eq_some_iff.1 written
  obtain ⟨others, isOthers, isBytes⟩ := bind_eq_some_iff.1 continued
  exact ⟨first, others, isFirst, isOthers, (Option.some.inj isBytes).symm⟩

theorem write_all_some (inRange : ∀ value ∈ values, InRange value) :
    ∃ bytes, Index.writeAll values = some bytes := by
  induction values with
  | nil => exact ⟨[], rfl⟩
  | cons value values ih =>
    obtain ⟨first, isFirst⟩ := write_some (inRange value mem_cons_self)
    obtain ⟨others, isOthers⟩ := ih fun other member => inRange other (mem_cons_of_mem _ member)
    exact ⟨first ++ others, by rw [writeAll, isFirst, isOthers]; rfl⟩

theorem write_all_ends (written : Index.writeAll values = some bytes) :
    bytes.countP Varint.ends ≤ values.length ∧
      (bytes.countP Varint.ends = values.length → ∀ value ∈ values, Ending value) := by
  induction values generalizing bytes with
  | nil =>
    cases written
    exact ⟨Nat.le_refl 0, fun _ _ member => (nomatch member)⟩
  | cons value values ih =>
    obtain ⟨first, others, isFirst, isOthers, rfl⟩ := write_all_cons written
    have one := written_ends isFirst
    have rest := ih isOthers
    rw [countP_append, length_cons]
    refine ⟨by omega, fun full other member => ?_⟩
    rcases mem_cons.1 member with rfl | member
    · exact one.2 (by omega)
    · exact rest.2 (by omega) other member

theorem step_read {step : Int} {steps : List Int} (natural : 0 ≤ step)
    (unwritten : flag = false → step = 0)
    (written : Index.writeSteps flag (step :: steps) = some bytes) (rest : Bytes) :
    ∃ others, Index.writeSteps flag steps = some others ∧
      Index.readStep flag (bytes ++ rest) = .ok (step, others ++ rest) := by
  cases flag with
  | false =>
    refine ⟨bytes, written, ?_⟩
    rw [unwritten rfl]
    rfl
  | true =>
    obtain ⟨first, others, isFirst, isOthers, rfl⟩ := write_all_cons written
    refine ⟨others, isOthers, ?_⟩
    rw [readStep, if_pos rfl, append_assoc]
    exact read_written natural isFirst (others ++ rest)

theorem compressed_steps_first (prediction : Int) (entry : IndexInfo) (info : List IndexInfo) :
    Index.compressedSteps none prediction (entry :: info) = entry.compressedOffset ::
      Index.compressedSteps (some entry.compressedOffset) prediction info := rfl

theorem compressed_steps_next (prev prediction : Int) (entry : IndexInfo) (info : List IndexInfo) :
    Index.compressedSteps (some prev) prediction (entry :: info) =
      (entry.compressedOffset - (prev + prediction)) ::
        Index.compressedSteps (some entry.compressedOffset)
          (prediction + (entry.compressedOffset - (prev + prediction)).tdiv 2) info := rfl

theorem load_uncompressed_after (entries : Entries info) (first : InRange prev)
    (later : ∀ entry ∈ info, prev < entry.uncompressedOffset)
    (unwritten : flag = false → ∀ step ∈ Index.uncompressedSteps 0 (some prev) info, step = 0)
    (written : Index.writeSteps flag (Index.uncompressedSteps 0 (some prev) info) = some bytes) (rest : Bytes) :
    Index.loadUncompressed 0 flag info.length (some prev) (bytes ++ rest) =
      .ok (info.map IndexInfo.uncompressedOffset, rest) := by
  induction info generalizing prev bytes with
  | nil =>
    cases flag with
    | false | true => cases written; rfl
  | cons entry info ih =>
    have inRange := entries.uncompressed entry mem_cons_self
    have greater := later entry mem_cons_self
    obtain ⟨others, isOthers, read⟩ := step_read (by omega)
      (fun off => unwritten off _ mem_cons_self) written rest
    have offset : wrapI64 (entry.uncompressedOffset - (prev + 0) + wrapI64 (prev + 0)) =
        entry.uncompressedOffset := by
      have atMost := inRange.2
      have atLeast := first.1
      rw [wrap_sum (by omega) (by omega) first ⟨Int.le_refl 0, by decide⟩]
      omega
    have continued := ih (entries.of_sublist (sublist_cons_self entry info)) inRange
      (pairwise_cons.1 entries.increasing).1
      (fun off step member => unwritten off step (mem_cons_of_mem _ member)) isOthers
    rw [length_cons, loadUncompressed, read, ok_bind]
    dsimp only [Option.elim, Option.any]
    rw [offset, if_neg (by simpa using greater), if_neg (Int.not_lt.2 inRange.1), continued]
    rfl

theorem uncompressed_after_in_range (entries : Entries info)
    (first : InRange prev) (later : ∀ entry ∈ info, prev < entry.uncompressedOffset) :
    ∀ step ∈ Index.uncompressedSteps 0 (some prev) info, InRange step := by
  induction info generalizing prev with
  | nil => exact fun _ member => (nomatch member)
  | cons entry info ih =>
    have here := entries.uncompressed entry mem_cons_self
    have greater := later entry mem_cons_self
    intro step member
    rcases mem_cons.1 member with rfl | member
    · unfold InRange at *
      omega
    · exact ih (entries.of_sublist (sublist_cons_self entry info)) here
        (pairwise_cons.1 entries.increasing).1 step member

theorem uncompressed_in_range (entries : Entries info) :
    ∀ step ∈ Index.uncompressedSteps 0 none info, InRange step := by
  cases info with
  | nil => exact fun _ member => (nomatch member)
  | cons entry info =>
    have here := entries.uncompressed entry mem_cons_self
    intro step member
    rcases mem_cons.1 member with rfl | member
    · exact here
    · exact uncompressed_after_in_range (entries.of_sublist (sublist_cons_self entry info))
        here (pairwise_cons.1 entries.increasing).1 step member

theorem load_uncompressed_written (entries : Entries info)
    (written : Index.writeSteps (Index.hasUncompressed 0 info)
      (Index.uncompressedSteps 0 none info) = some bytes) (rest : Bytes) :
    Index.loadUncompressed 0 (Index.hasUncompressed 0 info) info.length none (bytes ++ rest) =
      .ok (info.map IndexInfo.uncompressedOffset, rest) := by
  have unwritten : hasUncompressed 0 info = false →
      ∀ step ∈ uncompressedSteps 0 none info, step = 0 := by
    intro off step member
    unfold hasUncompressed at off
    have := any_eq_false.1 off step member
    simpa using this
  cases info with
  | nil => cases written; rfl
  | cons entry info =>
    have inRange := entries.uncompressed entry mem_cons_self
    obtain ⟨others, isOthers, read⟩ := step_read inRange.1
      (fun off => unwritten off _ mem_cons_self) written rest
    have continued := load_uncompressed_after
      (entries.of_sublist (sublist_cons_self entry info)) inRange
      (pairwise_cons.1 entries.increasing).1
      (fun off step member => unwritten off step (mem_cons_of_mem _ member)) isOthers rest
    rw [length_cons, loadUncompressed, read, ok_bind]
    dsimp only [Option.elim, Option.any]
    rw [if_neg Bool.false_ne_true, if_neg (Int.not_lt.2 inRange.1), continued]
    rfl

/-- Every offset is past the one before, by no less than the average of the earlier distances, in
which each distance counts half. -/
def KeepsAhead : Int → List Int → Prop
  | average, before :: offset :: rest =>
    before < offset ∧ average ≤ offset - before ∧
      KeepsAhead ((average + (offset - before)) / 2) (offset :: rest)
  | _, _ => True

theorem next_prediction {average distance : Int} (ahead : average ≤ distance) :
    average + (distance - average).tdiv 2 = (average + distance) / 2 := by
  rw [Int.tdiv_eq_ediv_of_nonneg (by omega)]
  omega

theorem write_compressed_some {average : Int}
    (inRange : ∀ entry ∈ info, InRange entry.compressedOffset) (first : InRange prev)
    (natural : 0 ≤ average)
    (ahead : KeepsAhead average (prev :: info.map IndexInfo.compressedOffset)) :
    ∀ step ∈ Index.compressedSteps (some prev) average info, InRange step := by
  induction info generalizing prev average with
  | nil => exact fun _ member => (nomatch member)
  | cons entry info ih =>
    have here := inRange entry mem_cons_self
    obtain ⟨greater, enough, later⟩ := ahead
    intro step member
    rcases mem_cons.1 member with rfl | member
    · unfold InRange at *
      omega
    · rw [← Int.sub_sub, next_prediction enough] at member
      exact ih (fun other inside => inRange other (mem_cons_of_mem _ inside)) here
        (by omega) later step member

theorem load_compressed_iff {average : Int}
    (inRange : ∀ entry ∈ info, InRange entry.compressedOffset) (first : InRange prev)
    (prediction : InRange average)
    (ending : ∀ step ∈ Index.compressedSteps (some prev) average info, Ending step)
    (written : Index.writeAll (Index.compressedSteps (some prev) average info) = some bytes)
    (rest : Bytes) :
    Index.loadCompressed info.length (some prev) average (bytes ++ rest) =
        .ok (info.map IndexInfo.compressedOffset, rest) ↔
      KeepsAhead average (prev :: info.map IndexInfo.compressedOffset) := by
  induction info generalizing prev average bytes with
  | nil =>
    cases written
    exact ⟨fun _ => trivial, fun _ => rfl⟩
  | cons entry info ih =>
    have here := inRange entry mem_cons_self
    rw [compressed_steps_next] at written ending
    obtain ⟨own, others, isOwn, isOthers, rfl⟩ := write_all_cons written
    rw [length_cons, loadCompressed, append_assoc, map_cons]
    by_cases enough : average ≤ entry.compressedOffset - prev
    · have offset : wrapI64 (entry.compressedOffset - (prev + average) + wrapI64 (prev + average)) =
          entry.compressedOffset := by
        have atMost := here.2
        have atLeast := first.1
        have natural := prediction.1
        rw [wrap_sum (by omega) (by omega) first prediction]
        omega
      have next : average + (entry.compressedOffset - (prev + average)).tdiv 2 =
          (average + (entry.compressedOffset - prev)) / 2 := by
        rw [← Int.sub_sub, next_prediction enough]
      have nextRange : InRange ((average + (entry.compressedOffset - prev)) / 2) := by
        unfold InRange at *
        omega
      have nextWrap : wrapI64 ((average + (entry.compressedOffset - prev)) / 2) =
          (average + (entry.compressedOffset - prev)) / 2 := by
        unfold InRange at nextRange
        exact wrap_of_small (by omega) (by omega)
      rw [next] at isOthers ending
      have continued := ih (fun other inside => inRange other (mem_cons_of_mem _ inside)) here
        nextRange (fun step member => ending step (mem_cons_of_mem _ member)) isOthers
      rw [read_written (by omega) isOwn, ok_bind]
      dsimp only [Option.elim, Option.any]
      rw [offset, next, nextWrap, KeepsAhead, ← continued]
      by_cases greater : prev < entry.compressedOffset
      · rw [if_neg (by simpa using greater), if_neg (Int.not_lt.2 here.1), bind_eq_ok]
        constructor
        · intro ⟨⟨offsets, last⟩, loaded, same⟩
          cases same
          exact ⟨greater, enough, loaded⟩
        · intro ⟨_, _, loaded⟩
          exact ⟨_, loaded, rfl⟩
      · rw [if_pos (by simpa using greater)]
        exact ⟨fun stopped => (nomatch stopped), fun kept => absurd kept.1 greater⟩
    · have negative : entry.compressedOffset - (prev + average) < 0 := by omega
      have low := Int.emod_nonneg (entry.compressedOffset - (prev + average)) (show (256 : Int) ≠ 0 by decide)
      rw [read_negative negative (ending _ mem_cons_self) isOwn, ok_bind]
      refine ⟨fun loaded => absurd loaded ?_, fun kept => absurd kept.2.1 enough⟩
      dsimp only [Option.elim, Option.any]
      intro loaded
      split at loaded
      · cases loaded
      · split at loaded
        · cases loaded
        · obtain ⟨result, _, same⟩ := bind_eq_ok.1 loaded
          have offset : wrapI64 ((entry.compressedOffset - (prev + average)) % 256 +
              wrapI64 (prev + average)) = entry.compressedOffset := by
            injection same with same
            exact (List.cons.inj (Prod.ext_iff.1 same).1).1
          rw [wrap_sum (by omega) (by omega) first prediction] at offset
          omega

theorem compressed_steps_length (info : List IndexInfo) (prev : Option Int) (prediction : Int) :
    (Index.compressedSteps prev prediction info).length = info.length := by
  induction info generalizing prev prediction with
  | nil => rfl
  | cons entry info ih =>
    cases prev with
    | none => rw [compressed_steps_first, length_cons, ih, length_cons]
    | some prev => rw [compressed_steps_next, length_cons, ih, length_cons]

theorem load_compressed_uses {entries : Nat} {prev : Option Int} {prediction : Int} {b rest : Bytes}
    (loaded : Index.loadCompressed entries prev prediction b = .ok (offsets, rest)) :
    offsets.length = entries ∧ ∃ used, b = used ++ rest ∧ used.countP Varint.ends = entries := by
  induction entries generalizing prev prediction b offsets with
  | zero =>
    cases loaded
    exact ⟨rfl, [], rfl, rfl⟩
  | succ entries ih =>
    obtain ⟨⟨v, after⟩, read, continued⟩ := bind_eq_ok.1 loaded
    dsimp only at continued
    split at continued
    · cases continued
    · split at continued
      · cases continued
      · obtain ⟨⟨others, last⟩, later, same⟩ := bind_eq_ok.1 continued
        cases same
        obtain ⟨count, used, isAfter, ends⟩ := ih later
        have taken : ∃ own, b = own ++ after ∧ own.countP Varint.ends = 1 := by
          unfold readVarint at read
          split at read
          · rename_i decoded
            rw [Except.ok.injEq, Prod.mk.injEq] at read
            obtain ⟨-, rfl⟩ := read
            exact Varint.decode_ends_once decoded
          · cases read
        obtain ⟨own, isOwn, once⟩ := taken
        refine ⟨by rw [length_cons, count], own ++ used, ?_, ?_⟩
        · rw [isOwn, isAfter, append_assoc]
        · rw [countP_append, once, ends, Nat.add_comm]

def sizeBytes (body : Bytes) : Bytes :=
  let totalSize := (4 + body.length + 4 + s2IndexTrailer.length) % 2 ^ 32
  [Index.byteAt totalSize 0, Index.byteAt totalSize 1, Index.byteAt totalSize 2,
    Index.byteAt totalSize 3]

theorem byte_at_value (n place : Nat) : (Index.byteAt n place).toNat = n / 256 ^ place % 256 := by
  unfold byteAt
  rw [UInt8.toNat_ofNat', Nat.mod_mod]

theorem chunk_length_le (n : Nat) :
    (Index.byteAt n 0).toNat + (Index.byteAt n 1).toNat * 256 + (Index.byteAt n 2).toNat * 65536 ≤
      n := by
  rw [byte_at_value, byte_at_value, byte_at_value]
  omega

theorem load_chunk (content : Bytes) :
    Index.load (Index.chunk (s2IndexHeader ++ content)) =
      Index.loadBody (content ++ (sizeBytes (s2IndexHeader ++ content) ++ s2IndexTrailer)) := by
  have long : ¬(chunk (s2IndexHeader ++ content)).length ≤
      4 + s2IndexHeader.length + s2IndexTrailer.length := by
    simp only [chunk, s2IndexHeader, s2IndexTrailer, length_append, length_cons, length_nil]
    omega
  unfold load
  rw [if_neg long]
  unfold chunk
  simp only [cons_append, nil_append]
  rw [if_neg (by decide), if_neg]
  · have unpadded (more : Bytes) : legacyIndexHeaderPadding.isPrefixOf (s2IndexHeader ++ more) = false :=
      rfl
    have headed (more : Bytes) : s2IndexHeader.isPrefixOf (s2IndexHeader ++ more) = true :=
      List.isPrefixOf_iff_prefix.2 (prefix_append s2IndexHeader more)
    simp only [append_assoc, unpadded, headed, drop_left, Bool.not_true, Bool.false_eq_true,
      if_false]
    rfl
  · rw [Nat.not_lt]
    refine (chunk_length_le _).trans (Nat.le_of_eq ?_)
    simp only [length_append, length_cons, length_nil]

theorem load_size_written (natural : 0 ≤ v)
    (written : writeVarint v = some bytes) (message : String) (rest : Bytes) :
    Index.loadSize message (bytes ++ rest) = .ok (v, rest) := by
  unfold loadSize
  rw [read_written natural written, ok_bind]
  exact if_neg (Int.not_lt.2 natural)

theorem flag_byte (flag : Bool) :
    ((if flag then 1 else 0 : UInt8) &&& 1 = if flag then 1 else 0) ∧
      decide ((if flag then 1 else 0 : UInt8) ≠ 0) = flag := by
  cases flag
  all_goals decide

theorem body_eq_some (stored : index.body uncompTotal compTotal = some bytes) :
    ∃ uncompBytes compBytes estimate count uncompressed compressed,
      writeVarint uncompTotal = some uncompBytes ∧ writeVarint compTotal = some compBytes ∧
      writeVarint index.estBlockUncomp = some estimate ∧
      writeVarint index.info.length = some count ∧
      Index.writeSteps (Index.hasUncompressed index.estBlockUncomp index.info)
        (Index.uncompressedSteps index.estBlockUncomp none index.info) = some uncompressed ∧
      Index.writeAll (Index.compressedSteps none (index.estBlockUncomp.tdiv 2) index.info) =
        some compressed ∧
      bytes = s2IndexHeader ++ (uncompBytes ++ (compBytes ++ (estimate ++ (count ++
        ((if Index.hasUncompressed index.estBlockUncomp index.info then 1 else 0) ::
          (uncompressed ++ compressed)))))) := by
  obtain ⟨totals, isTotals, stored⟩ := bind_eq_some_iff.1 stored
  obtain ⟨uncompressed, isUncompressed, stored⟩ := bind_eq_some_iff.1 stored
  obtain ⟨compressed, isCompressed, isBytes⟩ := bind_eq_some_iff.1 stored
  obtain ⟨uncompBytes, afterUncomp, isUncomp, isAfterUncomp, rfl⟩ := write_all_cons isTotals
  obtain ⟨compBytes, afterComp, isComp, isAfterComp, rfl⟩ := write_all_cons isAfterUncomp
  obtain ⟨estimate, afterEstimate, isEstimate, isAfterEstimate, rfl⟩ := write_all_cons isAfterComp
  obtain ⟨count, afterCount, isCount, isAfterCount, rfl⟩ := write_all_cons isAfterEstimate
  cases isAfterCount
  refine ⟨_, _, _, _, _, _, isUncomp, isComp, isEstimate, isCount, isUncompressed, isCompressed, ?_⟩
  rw [← Option.some.inj isBytes]
  simp

theorem body_some (estimate : index.estBlockUncomp = 0) (entries : Entries index.info)
    (few : index.info.length ≤ maxIndexEntries) (uncompRange : InRange uncompTotal)
    (compRange : InRange compTotal)
    (steps : ∀ step ∈ Index.compressedSteps none 0 index.info, InRange step) :
    ∃ body, index.body uncompTotal compTotal = some body := by
  have count : InRange index.info.length := ⟨Int.natCast_nonneg _, by unfold maxIndexEntries at few; omega⟩
  have totalsRange : ∀ value ∈ [uncompTotal, compTotal, 0, (index.info.length : Int)],
      InRange value := by
    simp only [mem_cons, not_mem_nil, or_false]
    rintro value (rfl | rfl | rfl | rfl)
    · exact uncompRange
    · exact compRange
    · exact ⟨Int.le_refl 0, by decide⟩
    · exact count
  obtain ⟨totals, isTotals⟩ := write_all_some totalsRange
  obtain ⟨uncompressed, isUncompressed⟩ :
      ∃ bytes, writeSteps (hasUncompressed 0 index.info)
        (uncompressedSteps 0 none index.info) = some bytes := by
    unfold writeSteps
    split
    · exact write_all_some (uncompressed_in_range entries)
    · exact ⟨[], rfl⟩
  obtain ⟨compressed, isCompressed⟩ := write_all_some steps
  unfold body
  rw [estimate, isTotals]
  dsimp only [bind_eq_bind, bind_some]
  rw [isUncompressed, bind_some, Int.zero_tdiv, isCompressed]
  exact ⟨_, rfl⟩

theorem load_stored {body : Bytes}
    (estimate : index.estBlockUncomp = 0) (entries : Entries index.info)
    (few : index.info.length ≤ maxIndexEntries) (uncompNatural : 0 ≤ uncompTotal)
    (compNatural : 0 ≤ compTotal) (stored : index.body uncompTotal compTotal = some body) :
    ∃ compressed, Index.writeAll (Index.compressedSteps none 0 index.info) = some compressed ∧
      Index.load (Index.chunk body) = (do
        let (offsets, b) ← Index.loadCompressed index.info.length none 0
          (compressed ++ (sizeBytes body ++ s2IndexTrailer))
        let rest ← Index.loadTrailer b
        .ok (⟨uncompTotal, compTotal,
          List.zipWith IndexInfo.mk offsets (index.info.map IndexInfo.uncompressedOffset), 0⟩, rest)) := by
  obtain ⟨uncompBytes, compBytes, estimateBytes, count, uncompressed, compressed, isUncomp, isComp,
    isEstimate, isCount, isUncompressed, isCompressed, rfl⟩ := body_eq_some stored
  rw [estimate] at isEstimate isUncompressed isCompressed
  refine ⟨compressed, isCompressed, ?_⟩
  have inBounds : ¬((index.info.length : Int) < 0 ∨ (maxIndexEntries : Int) < index.info.length) := by
    omega
  have flag := flag_byte (hasUncompressed 0 index.info)
  rw [load_chunk, estimate]
  simp only [append_assoc, cons_append]
  unfold loadBody
  rw [load_size_written uncompNatural isUncomp, ok_bind]
  dsimp only
  rw [load_size_written compNatural isComp, ok_bind]
  rw [load_size_written (Int.le_refl 0) isEstimate, ok_bind]
  rw [read_written (Int.natCast_nonneg _) isCount, ok_bind]
  dsimp only
  rw [if_neg inBounds, flag.1, if_neg (fun differs => differs rfl), flag.2, Int.toNat_natCast,
    load_uncompressed_written entries isUncompressed, ok_bind]
  rfl

/-- The stored form is loaded: with the totals, the entries that the reduction kept, and nothing
left of the bytes. -/
def Survives (index : Index) : Prop :=
  ∃ bytes loaded, index.intoVec = some bytes ∧ Index.load bytes = .ok (loaded, []) ∧
    loaded.totalUncompressed = index.totalUncompressed ∧
    loaded.totalCompressed = index.totalCompressed ∧ loaded.info = index.reduce.info

theorem load_trailer_all {b : Bytes} (loaded : Index.loadTrailer b = .ok []) : b.length = 10 := by
  unfold loadTrailer at loaded
  split at loaded
  · cases loaded
  · rename_i enough
    split at loaded
    · cases loaded
    · injection loaded with dropped
      have short : b.length ≤ 10 := drop_eq_nil_iff.1 dropped
      exact Nat.le_antisymm short (Nat.le_of_not_lt enough)

theorem load_trailer_stored (body : Bytes) :
    Index.loadTrailer (sizeBytes body ++ s2IndexTrailer) = .ok [] := rfl

theorem zip_compressed (length : offsets.length = info.length)
    (same : List.zipWith IndexInfo.mk offsets (info.map IndexInfo.uncompressedOffset) = info) :
    offsets = info.map IndexInfo.compressedOffset := by
  induction info generalizing offsets with
  | nil => exact length_eq_zero_iff.1 length
  | cons entry info ih =>
    cases offsets with
    | nil => cases length
    | cons offset offsets =>
      obtain ⟨isEntry, isInfo⟩ := List.cons.inj same
      rw [ih (Nat.succ.inj length) isInfo, map_cons, ← isEntry]

theorem zip_info (info : List IndexInfo) :
    List.zipWith IndexInfo.mk (info.map IndexInfo.compressedOffset)
      (info.map IndexInfo.uncompressedOffset) = info := by
  rw [zipWith_map, zipWith_self]
  exact map_id info

theorem load_first_iff (entries : Entries info)
    (ending : ∀ step ∈ Index.compressedSteps none 0 info, Ending step)
    (written : Index.writeAll (Index.compressedSteps none 0 info) = some bytes) (rest : Bytes) :
    Index.loadCompressed info.length none 0 (bytes ++ rest) =
        .ok (info.map IndexInfo.compressedOffset, rest) ↔
      KeepsAhead 0 (info.map IndexInfo.compressedOffset) := by
  cases info with
  | nil =>
    cases written
    exact ⟨fun _ => trivial, fun _ => rfl⟩
  | cons entry info =>
    have here := entries.compressed entry mem_cons_self
    obtain ⟨own, others, isOwn, isOthers, rfl⟩ := write_all_cons written
    have continued := load_compressed_iff
      (fun other inside => entries.compressed other (mem_cons_of_mem _ inside)) here
      ⟨Int.le_refl 0, by decide⟩ (fun step member => ending step (mem_cons_of_mem _ member))
      isOthers rest
    rw [length_cons, loadCompressed, append_assoc, read_written here.1 isOwn,
      ok_bind, map_cons, ← continued]
    dsimp only [Option.elim, Option.any]
    rw [if_neg Bool.false_ne_true, if_neg (Int.not_lt.2 here.1), bind_eq_ok]
    constructor
    · intro ⟨⟨offsets, last⟩, loaded, same⟩
      cases same
      exact loaded
    · intro loaded
      exact ⟨_, loaded, rfl⟩

theorem compressed_in_range (entries : Entries info)
    (ahead : KeepsAhead 0 (info.map IndexInfo.compressedOffset)) :
    ∀ step ∈ Index.compressedSteps none 0 info, InRange step := by
  cases info with
  | nil => exact fun _ member => (nomatch member)
  | cons entry info =>
    have here := entries.compressed entry mem_cons_self
    intro step member
    rcases mem_cons.1 member with rfl | member
    · exact here
    · exact write_compressed_some
        (fun other inside => entries.compressed other (mem_cons_of_mem _ inside)) here
        (Int.le_refl 0) ahead step member

/-- An index is loaded as it was stored if and only if the compressed offsets of the entries that
the reduction kept are ahead of the prediction. -/
theorem index_survives_iff (built : Built index) (two : 2 ≤ index.info.length) :
    Survives index ↔ KeepsAhead 0 (index.reduce.info.map IndexInfo.compressedOffset) := by
  have filled := built_filled built
  obtain ⟨uncompRange, compRange⟩ := filled.totals two
  obtain ⟨estimate, sublist, few⟩ := reduce_kept filled.estimate
  have entries := filled.entries.of_sublist sublist
  have room : index.reduce.info.length ≤ maxIndexEntries := few.trans (by decide)
  constructor
  · intro ⟨bytes, loaded, stored, isLoaded, _, _, same⟩
    obtain ⟨body, isBody, rfl⟩ := map_eq_some_iff.1 stored
    obtain ⟨compressed, written, load⟩ := load_stored estimate entries room uncompRange.1
      compRange.1 isBody
    rw [nil_append, load] at isLoaded
    obtain ⟨⟨offsets, b⟩, isOffsets, continued⟩ := Outcome.bind_eq_ok.1 isLoaded
    obtain ⟨rest, isRest, result⟩ := Outcome.bind_eq_ok.1 continued
    cases result
    obtain ⟨count, used, isUsed, ends⟩ := load_compressed_uses isOffsets
    have tail := append_inj' isUsed (load_trailer_all isRest).symm
    rw [← tail.1, ← compressed_steps_length index.reduce.info none 0] at ends
    rw [← tail.2, zip_compressed count same] at isOffsets
    exact (load_first_iff entries ((write_all_ends written).2 ends) written _).1 isOffsets
  · intro ahead
    have steps := compressed_in_range entries ahead
    obtain ⟨body, isBody⟩ := body_some estimate entries room uncompRange compRange steps
    obtain ⟨compressed, written, load⟩ := load_stored estimate entries room uncompRange.1
      compRange.1 isBody
    have read := (load_first_iff entries (fun step member => .inl (steps step member).1) written
      (sizeBytes body ++ s2IndexTrailer)).2 ahead
    rw [read, Outcome.ok_bind] at load
    dsimp only at load
    rw [load_trailer_stored, Outcome.ok_bind, zip_info] at load
    refine ⟨Index.chunk body, _, ?_, load, rfl, rfl, rfl⟩
    unfold Index.intoVec Index.appendTo
    rw [isBody]
    rfl

/-! Additions as the round trip test of the source has them. -/

def steadyIndex : Index :=
  ⟨2098152, 650, [⟨100, 1000⟩, ⟨300, 1049576⟩, ⟨650, 2098152⟩], 0⟩

theorem steady_index_survives :
    Built steadyIndex ∧ 2 ≤ steadyIndex.info.length ∧ Survives steadyIndex := by
  have built : Built steadyIndex :=
    @add_all_built [(100, 1000), (300, 1049576), (650, 2098152)] _ _ .new (by decide) rfl
  refine ⟨built, by decide, (index_survives_iff built (by decide)).2 ?_⟩
  exact ⟨by decide, by decide, by decide, by decide, trivial⟩

/-- The third block compresses far better than the prediction. -/
def overshotIndex : Index :=
  ⟨3145728, 2000100, [⟨1000000, 1048576⟩, ⟨2000000, 2097152⟩, ⟨2000100, 3145728⟩], 0⟩

def overshotLoaded : Index :=
  ⟨3145728, 2000100, [⟨1000000, 1048576⟩, ⟨2000000, 2097152⟩, ⟨2500068, 3145728⟩], 0⟩

theorem overshot_index_altered :
    Built overshotIndex ∧ 2 ≤ overshotIndex.info.length ∧ ¬Survives overshotIndex := by
  refine ⟨@add_all_built [(1000000, 1048576), (2000000, 2097152), (2000100, 3145728)] _ _ .new
    (by decide) rfl, by decide, ?_⟩
  intro ⟨bytes, loaded, stored, isLoaded, _, _, same⟩
  have altered : overshotIndex.intoVec.map Index.load = some (.ok (overshotLoaded, [])) := by
    decide +kernel
  rw [stored, map_some, isLoaded] at altered
  cases altered
  exact absurd same (by decide)

end Rustfs.Rio
