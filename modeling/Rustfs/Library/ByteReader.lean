import Mathlib.Data.List.Forall2

/-!
# Readers over a byte string

A reader takes bytes from the front of its input or fails. `Reads` says that a
reader accepts one byte string, whatever follows it, and is what a round trip
states of an encoder's output. `Yields` says what holds of every value a reader
can return. Both come with one rule for each way of composing readers.
-/

namespace Rustfs.Library.ByteReader

open List

abbrev Bytes := List UInt8

abbrev Reader (ε : Type) := StateT Bytes (Except ε)

variable {ε δ α β σ : Type} {reader : Reader ε α} {next : α → Reader ε β} {value : α}
  {bytes : Bytes} {holds : α → Prop}

def Reads (reader : Reader ε α) (bytes : Bytes) (value : α) : Prop :=
  ∀ rest, reader.run (bytes ++ rest) = .ok (value, rest)

def Yields (reader : Reader ε α) (holds : α → Prop) : Prop :=
  ∀ input value rest, reader.run input = .ok (value, rest) → holds value

/-- Exactly `count` bytes, or the error `eof` when fewer are left. -/
def take (eof : ε) (count : Nat) : Reader ε Bytes := fun input =>
  if count ≤ input.length then .ok (input.take count, input.drop count) else .error eof

def mapError (convert : ε → δ) (reader : Reader ε α) : Reader δ α := fun input =>
  match reader.run input with
  | .ok result => .ok result
  | .error error => .error (convert error)

def repeated (reader : Reader ε α) : Nat → Reader ε (List α)
  | 0 => pure []
  | count + 1 => do
      let first ← reader
      let rest ← repeated reader count
      pure (first :: rest)

def iterate (step : σ → Reader ε σ) : Nat → σ → Reader ε σ
  | 0, state => pure state
  | count + 1, state => do
      let next ← step state
      iterate step count next

theorem run_bind_ok {input rest : Bytes} (first : reader.run input = .ok (value, rest)) :
    (reader >>= next).run input = (next value).run rest := by
  rw [StateT.run_bind, first]
  rfl

theorem run_bind_error {input : Bytes} {error : ε} (failed : reader.run input = .error error) :
    (reader >>= next).run input = .error error := by
  rw [StateT.run_bind, failed]
  rfl

theorem run_pure (value : α) (input : Bytes) :
    (pure value : Reader ε α).run input = .ok (value, input) := rfl

theorem run_bind_eq_ok {input rest : Bytes}
    {value : β} (done : (reader >>= next).run input = .ok (value, rest)) :
    ∃ middle left, reader.run input = .ok (middle, left) ∧
      (next middle).run left = .ok (value, rest) := by
  rw [StateT.run_bind] at done
  cases first : reader.run input with
  | error error =>
    rw [first] at done
    cases done
  | ok result =>
    rw [first] at done
    exact ⟨result.1, result.2, rfl, done⟩

theorem Reads.pure (value : α) : Reads (pure value : Reader ε α) [] value :=
  fun _ => rfl

theorem Reads.bind {bytes more : Bytes} {middle : α}
    {value : β} (first : Reads reader bytes middle) (second : Reads (next middle) more value) :
    Reads (reader >>= next) (bytes ++ more) value := by
  intro rest
  rw [append_assoc, run_bind_ok (first (more ++ rest))]
  exact second rest

theorem Reads.bind_pure {build : α → β} {middle : α} (first : Reads reader bytes middle) :
    Reads (reader >>= fun value => Pure.pure (build value)) bytes (build middle) := by
  intro rest
  rw [run_bind_ok (first rest)]
  rfl

theorem Reads.map_error (convert : ε → δ)
    (reads : Reads reader bytes value) : Reads (mapError convert reader) bytes value := by
  intro rest
  have accepted := reads rest
  simp only [mapError, StateT.run] at accepted ⊢
  rw [accepted]

theorem Reads.take (eof : ε) (bytes : Bytes) : Reads (take eof bytes.length) bytes bytes := by
  intro rest
  simp [ByteReader.take, StateT.run]

theorem Reads.take_of_length (eof : ε) {count : Nat}
    (length : bytes.length = count) : Reads (ByteReader.take eof count) bytes bytes := by
  rw [← length]
  exact Reads.take eof bytes

theorem Reads.repeated {decode : β → α} {items : List β} {pieces : List Bytes}
    (each : List.Forall₂ (fun item piece => Reads reader piece (decode item)) items pieces) :
    Reads (repeated reader items.length) pieces.flatten (items.map decode) := by
  induction each with
  | nil => exact Reads.pure []
  | cons reads _ ih =>
    rw [flatten_cons, length_cons, ByteReader.repeated, map_cons]
    exact Reads.bind reads (Reads.bind_pure ih)

theorem Reads.repeated_map (encode : β → Bytes) (decode : β → α)
    (items : List β) (each : ∀ item ∈ items, Reads reader (encode item) (decode item)) :
    Reads (ByteReader.repeated reader items.length) (items.flatMap encode) (items.map decode) := by
  apply Reads.repeated
  rw [forall₂_map_right_iff, forall₂_same]
  exact each

/-- A loop reads a list of pieces when each piece takes the state to the next. -/
inductive Steps (step : σ → Reader ε σ) : List Bytes → σ → σ → Prop
  | done (state : σ) : Steps step [] state state
  | step {piece : Bytes} {pieces : List Bytes} {state next final : σ}
      (reads : Reads (step state) piece next) (rest : Steps step pieces next final) :
      Steps step (piece :: pieces) state final

theorem Reads.iterate {step : σ → Reader ε σ} {pieces : List Bytes} {state final : σ}
    (steps : Steps step pieces state final) :
    Reads (iterate step pieces.length state) pieces.flatten final := by
  induction steps with
  | done state => exact Reads.pure state
  | step reads _ ih =>
    rw [flatten_cons, length_cons, ByteReader.iterate]
    exact Reads.bind reads ih

theorem Yields.pure (result : holds value) : Yields (pure value : Reader ε α) holds := by
  intro input returned rest done
  rw [run_pure] at done
  cases done
  exact result

theorem Yields.throw {error : ε} : Yields (throw error : Reader ε α) holds := by
  intro input returned rest done
  cases done

theorem Yields.bind {middle : α → Prop} {holds : β → Prop} (first : Yields reader middle)
    (second : ∀ value, middle value → Yields (next value) holds) :
    Yields (reader >>= next) holds := by
  intro input returned rest done
  obtain ⟨value, left, ran, final⟩ := run_bind_eq_ok done
  exact second value (first _ _ _ ran) _ _ _ final

theorem Yields.trivial (reader : Reader ε α) : Yields reader fun _ => True :=
  fun _ _ _ _ => True.intro

theorem Yields.bind_any {holds : β → Prop}
    (second : ∀ value, Yields (next value) holds) : Yields (reader >>= next) holds :=
  Yields.bind (Yields.trivial reader) fun value _ => second value

theorem Yields.mono {holds weaker : α → Prop} (yields : Yields reader holds)
    (weaken : ∀ value, holds value → weaker value) : Yields reader weaker :=
  fun input value rest done => weaken value (yields input value rest done)

theorem Yields.map_error (convert : ε → δ)
    (yields : Yields reader holds) : Yields (mapError convert reader) holds := by
  intro input value rest done
  simp only [mapError, StateT.run] at done
  cases ran : reader input with
  | error error =>
    rw [ran] at done
    cases done
  | ok result =>
    rw [ran] at done
    cases done
    exact yields input value rest ran

theorem Yields.take (eof : ε) (count : Nat) :
    Yields (take eof count) fun bytes => bytes.length = count := by
  intro input value rest done
  simp only [ByteReader.take, StateT.run] at done
  split at done
  case isTrue enough =>
    cases done
    exact length_take_of_le enough
  case isFalse => cases done

theorem Yields.repeated (each : Yields reader holds) (count : Nat) :
    Yields (repeated reader count) fun items =>
      items.length = count ∧ ∀ item ∈ items, holds item := by
  induction count with
  | zero => exact Yields.pure ⟨rfl, by simp⟩
  | succ count ih =>
    refine Yields.bind each ?_
    intro first firstHolds
    refine Yields.bind ih ?_
    rintro rest ⟨length, restHold⟩
    apply Yields.pure
    refine ⟨by simp [length], ?_⟩
    intro item member
    rcases mem_cons.1 member with rfl | inRest
    · exact firstHolds
    · exact restHold item inRest

theorem Yields.iterate {step : σ → Reader ε σ} {invariant : σ → Prop}
    (preserved : ∀ state, invariant state → Yields (step state) invariant)
    (count : Nat) (state : σ) (initial : invariant state) :
    Yields (iterate step count state) invariant := by
  induction count generalizing state with
  | zero => exact Yields.pure initial
  | succ count ih => exact Yields.bind (preserved state initial) fun next holds => ih next holds

end Rustfs.Library.ByteReader
