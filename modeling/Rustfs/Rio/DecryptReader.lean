import Rustfs.Rio.EncryptReader

/-!
# The reader of encrypted streams

`DecryptReader::poll_read`: headers, v1 and v2 frames, segment terminators and the end of the
stream, one answer of the inner reader at a time. A run ends with the first error. The state that a
reader is left in by an error is therefore not modelled.
-/

namespace Rustfs.Rio

open List Option
open Library.ByteReader (Bytes)

/-- `rustfs_utils::uvarint`: the value and the number of bytes read, 0 if the bytes end too early
and negative if there are too many. -/
def uvarintFrom (i x s : Nat) : Bytes → Nat × Int
  | [] => (0, 0)
  | b :: rest =>
    if i = 10 then (0, -(i + 1))
    else if b.toNat < 128 then
      if i = 9 ∧ 1 < b.toNat then (0, -(i + 1)) else (x ||| b.toNat <<< s, i + 1)
    else uvarintFrom (i + 1) (x ||| (b.toNat % 128) <<< s) (s + 7) rest

def uvarint (buf : Bytes) : Nat × Int := uvarintFrom 0 0 0 buf

inductive V1NonceLayout
  | current
  | legacyBlock
  | reusedPart
  deriving DecidableEq

/-- `headerBuf` is the last complete header, `headerRead` what has been read of the next one. -/
structure DecryptReader where
  baseNonce : Nonce
  currentNonceBase : Nonce
  multipartMode : Bool
  multipartParts : List Nat
  currentPartIndex : Nat
  currentPart : Nat
  blockIndex : Nat
  buffer : Bytes
  finished : Bool
  headerBuf : Bytes
  headerRead : Bytes
  ciphertext : Bytes
  ciphertextLen : Nat
  currentFrameType : UInt8
  segmentFrameVersion : Option Nat
  sawFinalFrame : Bool
  segmentFrames : Nat
  streamSawV2 : Bool
  segmentsCompleted : Nat
  v1NonceLayout : Option V1NonceLayout
  legacyNonceFallback : Bool

def frameLen (header : Bytes) : Nat :=
  (header.getD 1 0).toNat ||| (header.getD 2 0).toNat <<< 8 ||| (header.getD 3 0).toNat <<< 16

def frameCrc (header : Bytes) : Nat :=
  (header.getD 4 0).toNat ||| (header.getD 5 0).toNat <<< 8 ||| (header.getD 6 0).toNat <<< 16 |||
    (header.getD 7 0).toNat <<< 24

namespace DecryptReader

def new (nonce : Nonce) (legacyNonceFallback : Bool) : DecryptReader where
  baseNonce := nonce
  currentNonceBase := nonce
  multipartMode := false
  multipartParts := []
  currentPartIndex := 0
  currentPart := 0
  blockIndex := 0
  buffer := []
  finished := false
  headerBuf := []
  headerRead := []
  ciphertext := []
  ciphertextLen := 0
  currentFrameType := frameTypeV1
  segmentFrameVersion := none
  sawFinalFrame := false
  segmentFrames := 0
  streamSawV2 := false
  segmentsCompleted := 0
  v1NonceLayout := none
  legacyNonceFallback := legacyNonceFallback

def newMultipart (baseNonce : Nonce) (multipartParts : List Nat) (legacyNonceFallback : Bool) :
    DecryptReader :=
  let firstPart := multipartParts.head?.getD 1
  { new baseNonce legacyNonceFallback with
    currentNonceBase := derivePartNonce baseNonce firstPart
    multipartMode := true
    multipartParts := multipartParts
    currentPart := firstPart }

/-- The inner reader ended where a header starts or inside of one. -/
def endOfInput (reader : DecryptReader) : Except IoError DecryptReader :=
  if reader.headerRead ≠ [] then
    .error ⟨.unexpectedEof, "unexpected EOF while reading encrypted block header"⟩
  else if reader.segmentFrameVersion = some 2 ∧ reader.sawFinalFrame = false ∧
      0 < reader.segmentFrames then
    .error ⟨.unexpectedEof, "encrypted stream truncated before its final frame"⟩
  else if reader.streamSawV2 ∧ reader.multipartMode ∧
      reader.segmentsCompleted < reader.multipartParts.length then
    .error ⟨.unexpectedEof, "encrypted stream ended before all part segments were read"⟩
  else .ok { reader with finished := true }

def nextPart (reader : DecryptReader) : DecryptReader :=
  let nextPart :=
    if reader.currentPartIndex + 1 < reader.multipartParts.length then
      reader.multipartParts.getD (reader.currentPartIndex + 1) 0
    else reader.currentPart + 1
  { reader with
    currentPartIndex :=
      if reader.currentPartIndex + 1 < reader.multipartParts.length then reader.currentPartIndex + 1
      else reader.currentPartIndex
    currentPart := nextPart
    currentNonceBase := derivePartNonce reader.baseNonce nextPart }

def endSegment (reader : DecryptReader) : Except IoError DecryptReader :=
  if reader.segmentFrameVersion = some 2 ∧ reader.sawFinalFrame = false then
    .error ⟨.invalidData, "encrypted segment terminator before the final frame"⟩
  else
    let reader := { reader with
      segmentsCompleted := reader.segmentsCompleted + 1
      segmentFrameVersion := none
      sawFinalFrame := false
      segmentFrames := 0
      v1NonceLayout := none
      blockIndex := 0
      ciphertext := []
      ciphertextLen := 0 }
    if reader.multipartMode then .ok reader.nextPart else .ok { reader with finished := true }

/-- The layouts that are tried for a v1 frame, in this order. -/
def v1Layouts (reader : DecryptReader) : List (V1NonceLayout × Nonce) :=
  let legacyPartNonce :=
    if reader.multipartMode then deriveLegacyPartNonce reader.baseNonce reader.currentPart
    else reader.baseNonce
  let selected := if reader.blockIndex = 0 then none else reader.v1NonceLayout
  [(.current, deriveBlockNonce reader.currentNonceBase reader.blockIndex),
    (.legacyBlock, deriveBlockNonce legacyPartNonce reader.blockIndex),
    (.reusedPart, legacyPartNonce)].filter fun (layout, _) =>
      (selected.all fun expected => expected = layout) &&
        (layout ≠ .reusedPart || reader.legacyNonceFallback)

def decryptV1 (cipher : Cipher) (reader : DecryptReader) (message : Bytes) :
    Except IoError (Bytes × Option V1NonceLayout) :=
  let opened := reader.v1Layouts.findSome? fun (layout, nonce) =>
    (cipher.decrypt nonce none message).map fun plaintext => (plaintext, layout)
  match opened with
  | none => .error ⟨.invalidData, "decrypt error: " ++
      if reader.v1Layouts = [] then "nonce layout rejected" else "aead::Error"⟩
  | some (plaintext, layout) =>
    .ok (plaintext,
      if 0 < reader.blockIndex ∧ reader.v1NonceLayout = none then some layout
      else reader.v1NonceLayout)

def decryptFrame (cipher : Cipher) (reader : DecryptReader) (message : Bytes) :
    Except IoError (Bytes × Option V1NonceLayout) :=
  if reader.currentFrameType ≠ frameTypeV1 then
    match cipher.decrypt (deriveBlockNonce reader.currentNonceBase reader.blockIndex)
        (some (v2FrameAad reader.headerBuf reader.blockIndex)) message with
    | some plaintext => .ok (plaintext, reader.v1NonceLayout)
    | none => .error ⟨.invalidData, "v2 encrypted frame failed authentication"⟩
  else reader.decryptV1 cipher message

/-- The payload of a frame is complete. -/
def openFrame (cipher : Cipher) (crc : Bytes → UInt32) (reader : DecryptReader) :
    Except IoError DecryptReader := do
  let (plaintextLen, uvarintLen) := uvarint reader.ciphertext
  if uvarintLen ≤ 0 ∨ (reader.ciphertext.length : Int) < uvarintLen then
    .error ⟨.invalidData, "Invalid encrypted block length prefix"⟩
  else
    let (plaintext, layout) ← reader.decryptFrame cipher (reader.ciphertext.drop uvarintLen.toNat)
    if plaintext.length ≠ plaintextLen then .error ⟨.other, "Plaintext length mismatch"⟩
    else if (crc plaintext).toNat ≠ frameCrc reader.headerBuf then .error ⟨.other, "CRC32 mismatch"⟩
    else
      .ok { reader with
        v1NonceLayout := layout
        sawFinalFrame := reader.sawFinalFrame || decide (reader.currentFrameType = frameTypeV2Final)
        segmentFrames := reader.segmentFrames + 1
        buffer := plaintext
        blockIndex := reader.blockIndex + 1
        ciphertext := []
        ciphertextLen := 0 }

def hexByte (byte : UInt8) : String :=
  (if byte.toNat < 16 then "0" else "") ++ String.ofList (Nat.toDigits 16 byte.toNat)

def frameVersion (typ : UInt8) : Option Nat :=
  if typ = frameTypeV1 then some 1
  else if typ = frameTypeV2 ∨ typ = frameTypeV2Final then some 2
  else none

def startFrame (cipher : Cipher) (crc : Bytes → UInt32) (reader : DecryptReader) (typ : UInt8)
    (version len : Nat) : Except IoError DecryptReader :=
  let reader := { reader with
    segmentFrameVersion := some version
    streamSawV2 := reader.streamSawV2 || decide (version = 2)
    currentFrameType := typ }
  if len = 0 then
    if version = 2 then .error ⟨.invalidData, "zero-length v2 encrypted frame"⟩
    else .ok { reader with finished := true, ciphertext := [], ciphertextLen := 0 }
  else if len < 4 then .error ⟨.other, "Invalid encrypted block length"⟩
  else
    let reader := { reader with ciphertext := [], ciphertextLen := len - 4 }
    if len - 4 = 0 then reader.openFrame cipher crc else .ok reader

def acceptHeader (cipher : Cipher) (crc : Bytes → UInt32) (reader : DecryptReader) :
    Except IoError DecryptReader :=
  let typ := reader.headerBuf.headD 0
  if typ = frameTypeEnd then reader.endSegment
  else
    match frameVersion typ with
    | none => .error ⟨.invalidData, "unknown encrypted frame type 0x" ++ hexByte typ⟩
    | some version =>
      if reader.sawFinalFrame then
        .error ⟨.invalidData, "encrypted frame after the segment's final frame"⟩
      else if reader.segmentFrameVersion.any fun current => current ≠ version then
        .error ⟨.invalidData, "encrypted segment mixes frame format versions"⟩
      else reader.startFrame cipher crc typ version (frameLen reader.headerBuf)

def wanted (reader : DecryptReader) : Nat :=
  if reader.ciphertextLen = 0 then 8 - reader.headerRead.length
  else reader.ciphertextLen - reader.ciphertext.length

/-- The bytes that the inner reader gave; none at its end. -/
def receive (cipher : Cipher) (crc : Bytes → UInt32) (reader : DecryptReader) (bytes : Bytes) :
    Except IoError DecryptReader :=
  if reader.ciphertextLen = 0 then
    let header := reader.headerRead ++ bytes
    if bytes = [] then reader.endOfInput
    else if header.length < 8 then .ok { reader with headerRead := header }
    else acceptHeader cipher crc { reader with headerRead := [], headerBuf := header }
  else
    let ciphertext := reader.ciphertext ++ bytes
    if bytes = [] then
      .error ⟨.unexpectedEof, "unexpected EOF while reading encrypted block payload"⟩
    else if ciphertext.length < reader.ciphertextLen then .ok { reader with ciphertext := ciphertext }
    else openFrame cipher crc { reader with ciphertext := ciphertext }

/-- Whether a poll is answered without asking the inner reader. -/
def served (reader : DecryptReader) : Bool := reader.buffer ≠ [] || reader.finished

end DecryptReader

inductive RunStatus
  | active
  | ended
  | failed (error : IoError)

/-- A reader over the bytes that its inner reader still has, and what it has delivered. -/
structure ReaderRun where
  reader : DecryptReader
  unread : Bytes
  delivered : Bytes
  status : RunStatus

namespace ReaderRun

/-- The end is signalled by an answer without bytes to a caller that has room. -/
def serve (run : ReaderRun) (room : Nat) : ReaderRun :=
  if run.reader.buffer ≠ [] then
    { run with
      reader := { run.reader with buffer := run.reader.buffer.drop room }
      delivered := run.delivered ++ run.reader.buffer.take room }
  else if room = 0 then run
  else { run with status := .ended }

def ask (cipher : Cipher) (crc : Bytes → UInt32) (run : ReaderRun) : InnerPoll → ReaderRun
  | .pending => run
  | .failed error => { run with status := .failed error }
  | .ready more =>
    let bytes := received more run.reader.wanted run.unread
    let run := { run with unread := run.unread.drop bytes.length }
    match run.reader.receive cipher crc bytes with
    | .ok reader => { run with reader := reader }
    | .error error => { run with status := .failed error }

/-- What happens next: the caller takes bytes, or the inner reader answers. -/
inductive Event
  | serve (room : Nat)
  | ask (answer : InnerPoll)

def tick (cipher : Cipher) (crc : Bytes → UInt32) (run : ReaderRun) : Event → ReaderRun
  | .serve room =>
    match run.status with
    | .active => if run.reader.served then run.serve room else run
    | _ => run
  | .ask answer =>
    match run.status with
    | .active => if run.reader.served then run else run.ask cipher crc answer
    | _ => run

def ticks (cipher : Cipher) (crc : Bytes → UInt32) (run : ReaderRun) (events : List Event) : ReaderRun :=
  events.foldl (tick cipher crc) run

end ReaderRun

structure Segment where
  nonce : Nonce
  plaintext : Bytes

inductive StoredObject
  | single (plaintext : Bytes)
  | multipart (parts : List (Nat × Bytes))

namespace StoredObject

def numbers : StoredObject → List Nat
  | single _ => []
  | multipart parts => parts.map Prod.fst

def segments (base : Nonce) : StoredObject → List Segment
  | single plaintext => [⟨base, plaintext⟩]
  | multipart parts => parts.map fun part => ⟨derivePartNonce base part.1, part.2⟩

def plaintext : StoredObject → Bytes
  | single plaintext => plaintext
  | multipart parts => (parts.map Prod.snd).flatten

def reader (base : Nonce) (legacyNonceFallback : Bool) : StoredObject → DecryptReader
  | single _ => .new base legacyNonceFallback
  | multipart parts => .newMultipart base (parts.map Prod.fst) legacyNonceFallback

end StoredObject

abbrev SealedFrame := Nonce × Option FrameAad × Bytes

def sealedFrame (crc : Bytes → UInt32) (segment : Segment) (index : Nat) : SealedFrame :=
  let plaintext := frameBlock segment.plaintext index
  let header := frameHeader crc (frameType segment.plaintext index) plaintext
  (deriveBlockNonce segment.nonce index, some (v2FrameAad header index), plaintext)

/-- What the writers of the segments gave to the cipher. -/
def sealedFrames (crc : Bytes → UInt32) (segments : List Segment) : List SealedFrame :=
  segments.flatMap fun segment =>
    (List.range (finalIndex segment.plaintext + 1)).map (sealedFrame crc segment)

/-- Only what was encrypted is decrypted, and to what it was. -/
structure Ideal (cipher : Cipher) (frames : List SealedFrame) : Prop where
  correct : ∀ nonce aad plaintext, (nonce, aad, plaintext) ∈ frames →
    cipher.decrypt nonce aad (cipher.encrypt nonce aad plaintext) = some plaintext
  authentic : ∀ nonce aad ciphertext plaintext,
    cipher.decrypt nonce aad ciphertext = some plaintext →
      ∃ original, (nonce, aad, original) ∈ frames ∧ ciphertext = cipher.encrypt nonce aad original

variable {cipher : Cipher} {nonce : Nonce} {aad : Option FrameAad} {segments : List Segment}
  {crc : Bytes → UInt32} {count : Nat} {segment : Segment} {reader : DecryptReader}
  {object : StoredObject} {base : Nonce} {out : Bytes}

theorem ideal_opened {frames : List SealedFrame} (ideal : Ideal cipher frames)
    {ciphertext plaintext : Bytes} (opened : cipher.decrypt nonce aad ciphertext = some plaintext) :
    (nonce, aad, plaintext) ∈ frames := by
  obtain ⟨original, isSealed, rfl⟩ := ideal.authentic nonce aad ciphertext plaintext opened
  rw [ideal.correct nonce aad original isSealed] at opened
  cases opened
  exact isSealed

theorem sealed_inv {plaintext : Bytes}
    (member : (nonce, aad, plaintext) ∈ sealedFrames crc segments) :
    ∃ segment ∈ segments, ∃ index, index ≤ finalIndex segment.plaintext ∧
      nonce = deriveBlockNonce segment.nonce index ∧
      plaintext = frameBlock segment.plaintext index ∧
      aad = some (v2FrameAad (frameHeader crc (frameType segment.plaintext index) plaintext) index) := by
  obtain ⟨segment, inside, member⟩ := mem_flatMap.1 member
  obtain ⟨index, inRange, same⟩ := mem_map.1 member
  cases same
  exact ⟨segment, inside, index, Nat.le_of_lt_succ (mem_range.1 inRange), rfl, rfl, rfl⟩

/-- The reader takes for an end what nothing authenticates: before any frame of a listed segment
the stream ends, or there is a terminator or an empty v1 frame. -/
def EarlyEnd (listed : Nat) (run : ReaderRun) : ReaderRun.Event → Prop
  | .ask (.ready more) =>
    let reader := run.reader
    let bytes := received more reader.wanted run.unread
    let header := reader.headerRead ++ bytes
    reader.segmentFrameVersion = none ∧ reader.segmentsCompleted < listed ∧
      ((header = [] ∧ ¬(reader.streamSawV2 = true ∧ reader.multipartMode = true)) ∨
        8 ≤ header.length ∧ (header.headD 0 = frameTypeEnd ∨
          header.headD 0 = frameTypeV1 ∧ frameLen header = 0))
  | _ => False

/-- After the listed segments the reader counts on, and reads a frame under the number of a listed
part. -/
def Recounted (numbers : List Nat) (reader : DecryptReader) : Prop :=
  reader.ciphertextLen ≠ 0 ∧ numbers.length ≤ reader.segmentsCompleted ∧
    ∃ number ∈ numbers, number % 2 ^ 32 = reader.currentPart % 2 ^ 32

def StepMeets (object : StoredObject) (base : Nonce) (run : ReaderRun) (event : ReaderRun.Event) : Prop :=
  ¬EarlyEnd (object.segments base).length run event ∧ ¬Recounted object.numbers run.reader

/-- Every step of the run meets the condition, each in the state that the steps before it left.
Nothing is asked of the bytes as a whole. -/
def RunMeets (cipher : Cipher) (crc : Bytes → UInt32) (object : StoredObject) (base : Nonce) :
    ReaderRun → List ReaderRun.Event → Prop
  | _, [] => True
  | run, event :: events =>
    StepMeets object base run event ∧
      RunMeets cipher crc object base (run.tick cipher crc event) events

def before (segments : List Segment) (count : Nat) : Bytes :=
  ((segments.take count).map Segment.plaintext).flatten

theorem before_all (all : segments.length ≤ count) :
    before segments count = (segments.map Segment.plaintext).flatten := by
  unfold before
  rw [take_of_length_le all]

theorem before_succ (isSegment : segments[count]? = some segment) :
    before segments (count + 1) = before segments count ++ segment.plaintext := by
  unfold before
  rw [take_add_one, isSegment, toList_some, map_append, flatten_append,
    map_singleton, flatten_singleton]

theorem before_start (segments : List Segment) (count : Nat) :
    before segments count <+: (segments.map Segment.plaintext).flatten := by
  conv_rhs => rw [← take_append_drop count segments, map_append, flatten_append]
  exact prefix_append _ _

theorem object_plaintext (object : StoredObject) (base : Nonce) :
    ((object.segments base).map Segment.plaintext).flatten = object.plaintext := by
  cases object with
  | single plaintext => exact append_nil plaintext
  | multipart parts =>
    unfold StoredObject.segments StoredObject.plaintext
    rw [List.map_map]
    rfl

/-- The segment that is read belongs to the number of completed ones. -/
def Placed (base : Nonce) : StoredObject → DecryptReader → Prop
  | .single _, reader =>
    reader.multipartMode = false ∧ reader.segmentsCompleted = 0 ∧ reader.currentNonceBase = base
  | .multipart parts, reader =>
    reader.multipartMode = true ∧ reader.multipartParts = parts.map Prod.fst ∧
      reader.baseNonce = base ∧
      reader.currentNonceBase = derivePartNonce base reader.currentPart ∧
      reader.currentPartIndex = min reader.segmentsCompleted (parts.length - 1) ∧
      ∀ part, parts[reader.segmentsCompleted]? = some part → reader.currentPart = part.1

theorem reader_placed (object : StoredObject) (base : Nonce) (legacyNonceFallback : Bool) :
    Placed base object (object.reader base legacyNonceFallback) := by
  cases object with
  | single plaintext => exact ⟨rfl, rfl, rfl⟩
  | multipart parts =>
    refine ⟨rfl, rfl, rfl, rfl, (Nat.zero_min _).symm, fun part isPart => ?_⟩
    cases parts with
    | nil => cases isPart
    | cons first parts =>
      cases isPart
      rfl

theorem placed_segment {index : Nat} (placed : Placed base object reader)
    (distinct : (object.numbers.map (· % 2 ^ 32)).Nodup)
    (listed : ¬Recounted object.numbers reader) (inside : reader.ciphertextLen ≠ 0)
    (member : segment ∈ object.segments base)
    (same : deriveBlockNonce reader.currentNonceBase index = deriveBlockNonce segment.nonce index) :
    (object.segments base)[reader.segmentsCompleted]? = some segment := by
  cases object with
  | single plaintext =>
    rw [placed.2.1, mem_singleton.1 member]
    rfl
  | multipart parts =>
    obtain ⟨_, _, _, nonce, _, number⟩ := placed
    obtain ⟨part, isPart, rfl⟩ := mem_map.1 member
    rw [nonce] at same
    have low := block_nonce_part same
    have inNumbers : part.1 ∈ parts.map Prod.fst := List.mem_map_of_mem isPart
    have early : reader.segmentsCompleted < parts.length := by
      by_contra outside
      refine listed ⟨inside, ?_, part.1, inNumbers, low.symm⟩
      rw [StoredObject.numbers, length_map]
      exact Nat.le_of_not_lt outside
    obtain ⟨place, isPlace⟩ := mem_iff_getElem?.1 isPart
    have current := number _ (getElem?_eq_getElem early)
    have places : reader.segmentsCompleted = place := by
      have lowNumbers : ((parts.map Prod.fst).map (· % 2 ^ 32))[reader.segmentsCompleted]? =
          ((parts.map Prod.fst).map (· % 2 ^ 32))[place]? := by
        rw [getElem?_map, getElem?_map, getElem?_map, getElem?_map, isPlace,
          getElem?_eq_getElem early, map_some, map_some, map_some,
          map_some, ← current, low]
      have below : reader.segmentsCompleted <
          ((parts.map Prod.fst).map (· % 2 ^ 32)).length := by simpa using early
      exact (getElem?_inj below distinct).1 lowNumbers
    rw [StoredObject.segments, getElem?_map, places, isPlace]
    rfl

theorem next_part_placed {parts : List (Nat × Bytes)} {reader next : DecryptReader}
    (placed : Placed base (.multipart parts) reader) (isNext : next = { reader with
      segmentsCompleted := reader.segmentsCompleted + 1
      segmentFrameVersion := none
      sawFinalFrame := false
      segmentFrames := 0
      v1NonceLayout := none
      blockIndex := 0
      ciphertext := []
      ciphertextLen := 0 }) : Placed base (.multipart parts) next.nextPart := by
  obtain ⟨mode, isParts, isBase, _, index, _⟩ := placed
  subst isNext
  unfold DecryptReader.nextPart
  have length : reader.multipartParts.length = parts.length := by rw [isParts, length_map]
  refine ⟨mode, isParts, isBase, ?_, ?_, fun part isPart => ?_⟩
  · dsimp only
    rw [isBase]
  · dsimp only
    rw [length]
    split <;> omega
  · dsimp only at isPart ⊢
    have inside := (List.getElem?_eq_some_iff.1 isPart).1
    have isIndex : reader.currentPartIndex = reader.segmentsCompleted := by omega
    rw [length, isIndex, if_pos inside, isParts, getD_eq_getElem?_getD, getElem?_map, isPart]
    rfl

/-- What the frames of the current segment have given so far. -/
inductive Given (segment : Option Segment) (reader : DecryptReader) : Bytes → Prop
  | start (version : reader.segmentFrameVersion = none) (between : reader.ciphertextLen = 0)
      (first : reader.blockIndex = 0) : Given segment reader []
  | legacy (version : reader.segmentFrameVersion = some 1) (inside : reader.ciphertextLen ≠ 0)
      (type : reader.currentFrameType = frameTypeV1) (first : reader.blockIndex = 0) :
      Given segment reader []
  | payload {given : Bytes} (version : reader.segmentFrameVersion = some 2)
      (inside : reader.ciphertextLen ≠ 0) (v2 : reader.streamSawV2 = true)
      (going : reader.sawFinalFrame = false)
      (type : reader.headerBuf.headD 0 = reader.currentFrameType)
      (notV1 : reader.currentFrameType ≠ frameTypeV1)
      (blocks : ∀ own, segment = some own →
        encryptionBlockSize * reader.blockIndex ≤ own.plaintext.length ∧
        given = own.plaintext.take (encryptionBlockSize * reader.blockIndex))
      (outside : segment = none → given = []) : Given segment reader given
  | frames {own : Segment} (version : reader.segmentFrameVersion = some 2)
      (between : reader.ciphertextLen = 0) (v2 : reader.streamSawV2 = true)
      (going : reader.sawFinalFrame = false) (counted : 0 < reader.segmentFrames)
      (isOwn : segment = some own)
      (reached : encryptionBlockSize * reader.blockIndex ≤ own.plaintext.length) :
      Given segment reader (own.plaintext.take (encryptionBlockSize * reader.blockIndex))
  | closed {own : Segment} (version : reader.segmentFrameVersion = some 2)
      (between : reader.ciphertextLen = 0) (v2 : reader.streamSawV2 = true)
      (ended : reader.sawFinalFrame = true) (isOwn : segment = some own) :
      Given segment reader own.plaintext

/-- A reader that is not finished has given the segments before and the frames of its own. -/
structure Reading (object : StoredObject) (base : Nonce) (reader : DecryptReader) (out : Bytes) :
    Prop where
  placed : Placed base object reader
  given : ∃ given, Given (object.segments base)[reader.segmentsCompleted]? reader given ∧
    out = before (object.segments base) reader.segmentsCompleted ++ given

theorem given_prefix {segment : Option Segment} {given : Bytes}
    (isGiven : Given segment reader given) :
    given = [] ∨ ∃ own, segment = some own ∧ given <+: own.plaintext := by
  cases isGiven with
  | start | legacy => exact .inl rfl
  | payload version inside v2 going type notV1 blocks outside =>
    cases segment with
    | none => exact .inl (outside rfl)
    | some own =>
      rw [(blocks own rfl).2]
      exact .inr ⟨own, rfl, List.take_prefix _ _⟩
  | frames version between v2 going counted isOwn reached =>
    exact .inr ⟨_, isOwn, List.take_prefix _ _⟩
  | closed version between v2 ended isOwn => exact .inr ⟨_, isOwn, prefix_rfl⟩

theorem reading_prefix (reading : Reading object base reader out) : out <+: object.plaintext := by
  obtain ⟨given, isGiven, rfl⟩ := reading.given
  rw [← object_plaintext object base]
  rcases given_prefix isGiven with rfl | ⟨own, isOwn, starts⟩
  · rw [append_nil]
    exact before_start _ _
  · refine List.IsPrefix.trans ?_ (before_start _ (reader.segmentsCompleted + 1))
    rw [before_succ isOwn]
    exact (prefix_append_right_inj _).2 starts

theorem Reading.with_bytes (reading : Reading object base reader out) (buffer ciphertext : Bytes) :
    Reading object base { reader with buffer := buffer, ciphertext := ciphertext } out := by
  obtain ⟨given, isGiven, isOut⟩ := reading.given
  refine ⟨?_, given, ?_, isOut⟩
  · cases object <;> exact reading.placed
  · cases isGiven with
    | start version between first => exact .start version between first
    | legacy version inside type first => exact .legacy version inside type first
    | payload version inside v2 going type notV1 blocks outside =>
      exact .payload version inside v2 going type notV1 blocks outside
    | frames version between v2 going counted isOwn reached =>
      exact .frames version between v2 going counted isOwn reached
    | closed version between v2 ended isOwn => exact .closed version between v2 ended isOwn

theorem Reading.with_header (reading : Reading object base reader out) (between : reader.ciphertextLen = 0)
    (headerRead headerBuf : Bytes) :
    Reading object base { reader with headerRead := headerRead, headerBuf := headerBuf } out := by
  obtain ⟨given, isGiven, isOut⟩ := reading.given
  refine ⟨?_, given, ?_, isOut⟩
  · cases object <;> exact reading.placed
  · cases isGiven with
    | start version between first => exact .start version between first
    | legacy version inside type first => exact absurd between inside
    | payload version inside v2 going type notV1 blocks outside => exact absurd between inside
    | frames version between v2 going counted isOwn reached =>
      exact .frames version between v2 going counted isOwn reached
    | closed version between v2 ended isOwn => exact .closed version between v2 ended isOwn

/-- What was given and is buffered is all of the plaintext, or the reader reads on. There is no
third case as long as the run meets its condition. -/
def Sound (object : StoredObject) (base : Nonce) (reader : DecryptReader) (out : Bytes) : Prop :=
  (reader.finished = true ∧ out = object.plaintext) ∨
    (reader.finished = false ∧ Reading object base reader out)

theorem sound_start (sound : Sound object base reader out) : out <+: object.plaintext := by
  rcases sound with ⟨_, rfl⟩ | ⟨_, reading⟩
  · exact prefix_rfl
  · exact reading_prefix reading

theorem take_frame_block (plaintext : Bytes) (index : Nat) :
    plaintext.take (encryptionBlockSize * index) ++ frameBlock plaintext index =
      plaintext.take (encryptionBlockSize * (index + 1)) := by
  unfold frameBlock
  rw [Nat.mul_succ, take_add]

theorem header_type (crc : Bytes → UInt32) (typeByte : UInt8) (plaintext : Bytes) :
    (frameHeader crc typeByte plaintext).headD 0 = typeByte := rfl

theorem decrypt_v1_fails
    (ideal : Ideal cipher (sealedFrames crc segments)) (reader : DecryptReader) (message : Bytes)
    (result : Bytes × Option V1NonceLayout) : reader.decryptV1 cipher message ≠ .ok result := by
  intro opened
  unfold DecryptReader.decryptV1 at opened
  dsimp only at opened
  split at opened
  · cases opened
  · rename_i plaintext layout found
    obtain ⟨⟨tried, nonce⟩, _, isOpened⟩ := exists_of_findSome?_eq_some found
    obtain ⟨value, decrypted, _⟩ := map_eq_some_iff.1 isOpened
    obtain ⟨_, _, _, _, _, _, noAad⟩ := sealed_inv (ideal_opened ideal decrypted)
    cases noAad

theorem open_frame_inv {reader next : DecryptReader}
    (opened : reader.openFrame cipher crc = .ok next) :
    ∃ plaintext layout message, reader.decryptFrame cipher message = .ok (plaintext, layout) ∧
      next = { reader with
        v1NonceLayout := layout
        sawFinalFrame := reader.sawFinalFrame || decide (reader.currentFrameType = frameTypeV2Final)
        segmentFrames := reader.segmentFrames + 1
        buffer := plaintext
        blockIndex := reader.blockIndex + 1
        ciphertext := []
        ciphertextLen := 0 } := by
  unfold DecryptReader.openFrame at opened
  dsimp only at opened
  split at opened
  · cases opened
  · obtain ⟨⟨plaintext, layout⟩, decrypted, continued⟩ :=
      Rustfs.Library.Outcome.bind_eq_ok.1 opened
    dsimp only at continued
    split at continued
    · cases continued
    · split at continued
      · cases continued
      · cases continued
        exact ⟨plaintext, layout, _, decrypted, rfl⟩

theorem open_frame_reading {reader next : DecryptReader}
    (ideal : Ideal cipher (sealedFrames crc (object.segments base)))
    (distinct : (object.numbers.map (· % 2 ^ 32)).Nodup) (listed : ¬Recounted object.numbers reader)
    (reading : Reading object base reader out) (inside : reader.ciphertextLen ≠ 0)
    (opened : reader.openFrame cipher crc = .ok next) :
    Reading object base next (out ++ next.buffer) := by
  obtain ⟨plaintext, layout, message, decrypted, rfl⟩ := open_frame_inv opened
  obtain ⟨given, isGiven, rfl⟩ := reading.given
  unfold DecryptReader.decryptFrame at decrypted
  cases isGiven with
  | start version between first => exact absurd between inside
  | frames version between | closed version between => exact absurd between inside
  | legacy version _ type first =>
    rw [if_neg (fun differs => differs type)] at decrypted
    exact absurd decrypted (decrypt_v1_fails ideal reader message _)
  | payload version _ v2 going type notV1 blocks outside =>
    rw [if_pos notV1] at decrypted
    split at decrypted
    · rename_i value isOpened
      cases decrypted
      obtain ⟨segment, member, index, _, sameNonce, isBlock, sameAad⟩ :=
        sealed_inv (ideal_opened ideal isOpened)
      obtain ⟨sameHeader, rfl⟩ : reader.headerBuf =
          frameHeader crc (frameType segment.plaintext index) plaintext ∧
            reader.blockIndex = index := by
        injection sameAad with sameAad
        injection sameAad with sameHeader sameIndex
        exact ⟨sameHeader, sameIndex⟩
      have isSegment := placed_segment reading.placed distinct listed inside member sameNonce
      have isType : frameType segment.plaintext reader.blockIndex = reader.currentFrameType := by
        rw [← type, sameHeader, header_type]
      obtain ⟨reached, isGiven⟩ := blocks segment isSegment
      refine ⟨?_, ?_⟩
      · cases object <;> exact reading.placed
      · have joined : given ++ plaintext =
            segment.plaintext.take (encryptionBlockSize * (reader.blockIndex + 1)) := by
          rw [isGiven, isBlock, take_frame_block]
        by_cases full : encryptionBlockSize * (reader.blockIndex + 1) ≤ segment.plaintext.length
        · have notFinal : reader.currentFrameType ≠ frameTypeV2Final := by
            rw [← isType, frame_type_full full]
            decide
          refine ⟨_, .frames version rfl v2 ?_ (Nat.succ_pos _) isSegment full, ?_⟩
          · rw [going, decide_eq_false notFinal]
            rfl
          · rw [append_assoc, joined]
        · have final : reader.currentFrameType = frameTypeV2Final := by
            rw [← isType, frame_type_final (Nat.not_le.1 full)]
          refine ⟨_, .closed version rfl v2 ?_ isSegment, ?_⟩
          · rw [going, decide_eq_true final]
            rfl
          · rw [append_assoc, joined, take_of_length_le (Nat.not_le.1 full).le]
    · cases decrypted

section Headers

variable {cipher : Cipher} {crc : Bytes → UInt32} {object : StoredObject} {base : Nonce}
  {reader next : DecryptReader} {out : Bytes} {typ : UInt8}

theorem all_read (reading : Reading object base reader out)
    (all : (object.segments base).length ≤ reader.segmentsCompleted) : out = object.plaintext := by
  obtain ⟨given, isGiven, rfl⟩ := reading.given
  rw [getElem?_eq_none all] at isGiven
  rcases given_prefix isGiven with rfl | ⟨own, isOwn, _⟩
  · rw [append_nil, before_all all, object_plaintext]
  · cases isOwn

theorem single_read {plaintext : Bytes} (placed : Placed base (.single plaintext) reader)
    {own : Segment}
    (isOwn : (StoredObject.segments base (.single plaintext))[reader.segmentsCompleted]? = some own) :
    before (StoredObject.segments base (.single plaintext)) reader.segmentsCompleted ++ own.plaintext =
      plaintext := by
  rw [placed.2.1] at isOwn ⊢
  cases isOwn
  rfl

theorem segments_length (object : StoredObject) (base : Nonce)
    (placed : Placed base object reader) (multipart : reader.multipartMode = true) :
    (object.segments base).length = reader.multipartParts.length ∧
      ∃ parts, object = .multipart parts := by
  cases object with
  | single plaintext => exact absurd (placed.1.symm.trans multipart) Bool.false_ne_true
  | multipart parts =>
    rw [placed.2.1, StoredObject.segments, length_map, length_map]
    exact ⟨rfl, parts, rfl⟩

theorem end_of_input_read (reading : Reading object base reader out)
    (between : reader.ciphertextLen = 0) (notEarly : ¬(reader.segmentFrameVersion = none ∧
      reader.segmentsCompleted < (object.segments base).length ∧
      ¬(reader.streamSawV2 = true ∧ reader.multipartMode = true)))
    (ended : reader.endOfInput = .ok next) :
    Sound object base next out ∧ next.buffer = reader.buffer := by
  unfold DecryptReader.endOfInput at ended
  split at ended
  · cases ended
  · split at ended
    · cases ended
    · rename_i _ notCut
      split at ended
      · cases ended
      · rename_i notMissing
        cases ended
        refine ⟨.inl ⟨rfl, ?_⟩, rfl⟩
        by_cases all : (object.segments base).length ≤ reader.segmentsCompleted
        · exact all_read reading all
        · have multipart : ¬(reader.streamSawV2 = true ∧ reader.multipartMode = true) := by
            intro ⟨v2, multipart⟩
            have length := (segments_length object base reading.placed multipart).1
            exact notMissing ⟨v2, multipart, by omega⟩
          obtain ⟨given, isGiven, rfl⟩ := reading.given
          cases isGiven with
          | start version _ first => exact absurd ⟨version, Nat.not_le.1 all, multipart⟩ notEarly
          | legacy version inside | payload version inside => exact absurd between inside
          | frames version _ v2 going counted => exact absurd ⟨version, going, counted⟩ notCut
          | closed version _ v2 ended isOwn =>
            cases object with
            | single plaintext => exact single_read reading.placed isOwn
            | multipart parts => exact absurd ⟨v2, reading.placed.1⟩ multipart

theorem end_segment_read (reading : Reading object base reader out)
    (between : reader.ciphertextLen = 0) (notEarly : ¬(reader.segmentFrameVersion = none ∧
      reader.segmentsCompleted < (object.segments base).length))
    (going : reader.finished = false) (ended : reader.endSegment = .ok next) :
    Sound object base next out ∧ next.buffer = reader.buffer := by
  unfold DecryptReader.endSegment at ended
  split at ended
  · cases ended
  · rename_i notCut
    have closes : out = before (object.segments base) (reader.segmentsCompleted + 1) := by
      obtain ⟨given, isGiven, rfl⟩ := reading.given
      cases isGiven with
      | start version _ first =>
        have all : (object.segments base).length ≤ reader.segmentsCompleted :=
          Nat.not_lt.1 fun early => notEarly ⟨version, early⟩
        rw [append_nil, before_all all, before_all (Nat.le_succ_of_le all)]
      | legacy version inside | payload version inside => exact absurd between inside
      | frames version _ v2 going => exact absurd ⟨version, going⟩ notCut
      | closed version _ v2 ended isOwn => exact (before_succ isOwn).symm
    dsimp only at ended
    split at ended
    · rename_i multipart
      obtain ⟨_, parts, rfl⟩ := segments_length object base reading.placed multipart
      cases ended
      refine ⟨.inr ⟨going, next_part_placed reading.placed rfl, [], .start rfl rfl rfl, ?_⟩, rfl⟩
      rw [append_nil]
      exact closes
    · rename_i notMultipart
      cases ended
      refine ⟨.inl ⟨rfl, ?_⟩, rfl⟩
      cases object with
      | single plaintext =>
        rw [closes, ← object_plaintext (.single plaintext) base]
        exact before_all (Nat.le_add_left 1 _)
      | multipart parts => exact absurd reading.placed.1 notMultipart

theorem open_empty_fails (empty : reader.ciphertext = []) :
    reader.openFrame cipher crc ≠ .ok next := by
  intro opened
  unfold DecryptReader.openFrame at opened
  rw [empty] at opened
  cases opened

theorem frame_version_cases {version : Nat}
    (isVersion : DecryptReader.frameVersion typ = some version) :
    (version = 1 ∧ typ = frameTypeV1) ∨ (version = 2 ∧ typ ≠ frameTypeV1) := by
  unfold DecryptReader.frameVersion at isVersion
  split at isVersion
  · rename_i isV1
    cases isVersion
    exact .inl ⟨rfl, isV1⟩
  · rename_i notV1
    split at isVersion
    · cases isVersion
      exact .inr ⟨rfl, notV1⟩
    · cases isVersion

theorem start_frame_read {version len : Nat} (reading : Reading object base reader out)
    (between : reader.ciphertextLen = 0) (going : reader.finished = false)
    (notFinal : reader.sawFinalFrame = false) (isType : reader.headerBuf.headD 0 = typ)
    (isVersion : DecryptReader.frameVersion typ = some version)
    (same : ∀ current, reader.segmentFrameVersion = some current → current = version)
    (notEarly : ¬(reader.segmentFrameVersion = none ∧
      reader.segmentsCompleted < (object.segments base).length ∧ typ = frameTypeV1 ∧ len = 0))
    (started : reader.startFrame cipher crc typ version len = .ok next) :
    Sound object base next out ∧ next.buffer = reader.buffer := by
  unfold DecryptReader.startFrame at started
  split at started
  · rename_i empty
    split at started
    · cases started
    · rename_i notV2
      cases started
      obtain ⟨rfl, isV1⟩ := (frame_version_cases isVersion).resolve_right fun isV2 => notV2 isV2.1
      refine ⟨.inl ⟨rfl, ?_⟩, rfl⟩
      by_cases all : (object.segments base).length ≤ reader.segmentsCompleted
      · exact all_read reading all
      · obtain ⟨given, isGiven, rfl⟩ := reading.given
        cases isGiven with
        | start isNone => exact absurd ⟨isNone, Nat.not_le.1 all, isV1, empty⟩ notEarly
        | legacy isSome inside | payload isSome inside => exact absurd between inside
        | frames isSome | closed isSome => exact absurd (same 2 isSome) (by decide)
  · split at started
    · cases started
    · split at started
      · exact absurd started (open_empty_fails rfl)
      · rename_i payload
        cases started
        refine ⟨.inr ⟨going, ?_, ?_⟩, rfl⟩
        · cases object <;> exact reading.placed
        · obtain ⟨given, isGiven, rfl⟩ := reading.given
          refine ⟨given, ?_, rfl⟩
          rcases frame_version_cases isVersion with ⟨rfl, isV1⟩ | ⟨rfl, notV1⟩
          · cases isGiven with
            | start isNone _ first => exact .legacy rfl payload isV1 first
            | legacy isSome inside | payload isSome inside => exact absurd between inside
            | frames isSome | closed isSome => exact absurd (same 2 isSome) (by decide)
          · cases isGiven with
            | start isNone _ first =>
              refine .payload rfl payload (Bool.or_true _) notFinal isType notV1 ?_ fun _ => rfl
              intro own isOwn
              rw [first]
              exact ⟨Nat.zero_le _, rfl⟩
            | legacy isSome inside | payload isSome inside => exact absurd between inside
            | frames isSome _ v2 _ counted isOwn reached =>
              refine .payload rfl payload (Bool.or_true _) notFinal isType notV1 ?_ ?_
              · intro own isSame
                cases isOwn.symm.trans isSame
                exact ⟨reached, rfl⟩
              · intro isNone
                cases isOwn.symm.trans isNone
            | closed isSome _ _ ended => exact absurd (notFinal.symm.trans ended) Bool.false_ne_true

theorem accept_header_read (reading : Reading object base reader out)
    (between : reader.ciphertextLen = 0) (going : reader.finished = false)
    (notEarly : ¬(reader.segmentFrameVersion = none ∧
      reader.segmentsCompleted < (object.segments base).length ∧
      (reader.headerBuf.headD 0 = frameTypeEnd ∨
        reader.headerBuf.headD 0 = frameTypeV1 ∧ frameLen reader.headerBuf = 0)))
    (accepted : reader.acceptHeader cipher crc = .ok next) :
    Sound object base next out ∧ next.buffer = reader.buffer := by
  unfold DecryptReader.acceptHeader at accepted
  dsimp only at accepted
  split at accepted
  · rename_i isEnd
    exact end_segment_read reading between (fun early => notEarly ⟨early.1, early.2, .inl isEnd⟩)
      going accepted
  · split at accepted
    · cases accepted
    · rename_i version isVersion
      split at accepted
      · cases accepted
      · rename_i notFinal
        split at accepted
        · cases accepted
        · rename_i noMix
          refine start_frame_read reading between going (Bool.not_eq_true _ ▸ notFinal) rfl isVersion ?_ ?_
            accepted
          · intro current isCurrent
            by_contra differs
            apply noMix
            rw [isCurrent]
            simpa using differs
          · intro ⟨isNone, early, isV1, empty⟩
            exact notEarly ⟨isNone, early, .inr ⟨isV1, empty⟩⟩

end Headers

section Runs

variable {cipher : Cipher} {crc : Bytes → UInt32} {object : StoredObject} {base : Nonce}
  {run : ReaderRun}

theorem receive_read {reader next : DecryptReader} {out bytes : Bytes}
    (ideal : Ideal cipher (sealedFrames crc (object.segments base)))
    (distinct : (object.numbers.map (· % 2 ^ 32)).Nodup) (listed : ¬Recounted object.numbers reader)
    (notEarly : ¬(reader.segmentFrameVersion = none ∧
      reader.segmentsCompleted < (object.segments base).length ∧
      ((reader.headerRead ++ bytes = [] ∧
          ¬(reader.streamSawV2 = true ∧ reader.multipartMode = true)) ∨
        8 ≤ (reader.headerRead ++ bytes).length ∧
          ((reader.headerRead ++ bytes).headD 0 = frameTypeEnd ∨
            (reader.headerRead ++ bytes).headD 0 = frameTypeV1 ∧
              frameLen (reader.headerRead ++ bytes) = 0))))
    (reading : Reading object base reader out) (going : reader.finished = false)
    (empty : reader.buffer = []) (accepted : reader.receive cipher crc bytes = .ok next) :
    Sound object base next (out ++ next.buffer) := by
  have unchanged : out ++ reader.buffer = out := by rw [empty, append_nil]
  unfold DecryptReader.receive at accepted
  dsimp only at accepted
  split at accepted
  · rename_i between
    split at accepted
    · rename_i nothing
      by_cases fresh : reader.headerRead = []
      · obtain ⟨sound, same⟩ := end_of_input_read reading between
          (fun early => notEarly ⟨early.1, early.2.1, .inl ⟨by rw [fresh, nothing]; rfl, early.2.2⟩⟩)
          accepted
        rwa [same, unchanged]
      · unfold DecryptReader.endOfInput at accepted
        rw [if_pos fresh] at accepted
        cases accepted
    · split at accepted
      · cases accepted
        rw [unchanged]
        exact .inr ⟨going, reading.with_header between _ reader.headerBuf⟩
      · rename_i complete
        obtain ⟨sound, same⟩ := accept_header_read (reading.with_header between [] _) between going
          (fun early => notEarly ⟨early.1, early.2.1, .inr ⟨Nat.not_lt.1 complete, early.2.2⟩⟩) accepted
        rwa [same, unchanged]
  · rename_i inside
    split at accepted
    · cases accepted
    · split at accepted
      · cases accepted
        rw [unchanged]
        exact .inr ⟨going, reading.with_bytes reader.buffer _⟩
      · have stays : next.finished = false := by
          obtain ⟨plaintext, layout, message, _, rfl⟩ := open_frame_inv accepted
          exact going
        have continued := reading.with_bytes reader.buffer (reader.ciphertext ++ bytes)
        exact .inr ⟨stays, open_frame_reading ideal distinct (by exact listed) continued inside accepted⟩

def RunSound (object : StoredObject) (base : Nonce) (run : ReaderRun) : Prop :=
  match run.status with
  | .active => Sound object base run.reader (run.delivered ++ run.reader.buffer)
  | .ended => run.delivered = object.plaintext
  | .failed _ => run.delivered <+: object.plaintext

theorem serve_sound (active : run.status = .active)
    (sound : Sound object base run.reader (run.delivered ++ run.reader.buffer))
    (served : run.reader.served = true) (room : Nat) : RunSound object base (run.serve room) := by
  unfold ReaderRun.serve
  split
  · unfold RunSound
    rw [active]
    rw [append_assoc, take_append_drop]
    rcases sound with ⟨finished, all⟩ | ⟨going, reading⟩
    · exact .inl ⟨finished, all⟩
    · exact .inr ⟨going, reading.with_bytes _ run.reader.ciphertext⟩
  · rename_i nothing
    rw [not_not] at nothing
    split
    · unfold RunSound
      rw [active]
      exact sound
    · have finished : run.reader.finished = true := by
        simpa [DecryptReader.served, nothing] using served
      rw [nothing, append_nil] at sound
      rcases sound with ⟨_, all⟩ | ⟨going, _⟩
      · exact all
      · exact absurd (going.symm.trans finished) Bool.false_ne_true

theorem tick_sound {event : ReaderRun.Event}
    (ideal : Ideal cipher (sealedFrames crc (object.segments base)))
    (distinct : (object.numbers.map (· % 2 ^ 32)).Nodup) (meets : StepMeets object base run event)
    (sound : RunSound object base run) : RunSound object base (run.tick cipher crc event) := by
  cases isStatus : run.status with
  | ended | failed error =>
    have still : run.tick cipher crc event = run := by
      cases event <;> simp only [ReaderRun.tick, isStatus]
    rwa [still]
  | active =>
    have isSound := sound
    unfold RunSound at isSound
    rw [isStatus] at isSound
    have started : run.delivered <+: object.plaintext :=
      (prefix_append _ _).trans (sound_start isSound)
    cases event with
    | serve room =>
      simp only [ReaderRun.tick, isStatus]
      split
      · rename_i served
        exact serve_sound isStatus isSound served room
      · exact sound
    | ask answer =>
      simp only [ReaderRun.tick, isStatus]
      split
      · exact sound
      · rename_i asked
        cases answer with
        | pending => exact sound
        | failed error => exact started
        | ready more =>
          simp only [DecryptReader.served, Bool.or_eq_true, decide_eq_true_eq, not_or,
            not_not, Bool.not_eq_true] at asked
          obtain ⟨empty, going⟩ := asked
          rw [empty, append_nil] at isSound
          have reading : Reading object base run.reader run.delivered :=
            (isSound.resolve_left fun ended =>
              absurd (going.symm.trans ended.1) Bool.false_ne_true).2
          unfold ReaderRun.ask
          dsimp only
          split
          · rename_i next accepted
            unfold RunSound
            rw [isStatus]
            exact receive_read ideal distinct meets.2 meets.1 reading going empty accepted
          · exact started

theorem ticks_sound {events : List ReaderRun.Event}
    (ideal : Ideal cipher (sealedFrames crc (object.segments base)))
    (distinct : (object.numbers.map (· % 2 ^ 32)).Nodup)
    (meets : RunMeets cipher crc object base run events) (sound : RunSound object base run) :
    RunSound object base (run.ticks cipher crc events) := by
  induction events generalizing run with
  | nil => exact sound
  | cons event events ih => exact ih meets.2 (tick_sound ideal distinct meets.1 sound)

def StoredObject.start (object : StoredObject) (base : Nonce) (legacyNonceFallback : Bool)
    (stream : Bytes) : ReaderRun :=
  ⟨object.reader base legacyNonceFallback, stream, [], .active⟩

theorem start_sound (legacyNonceFallback : Bool) (stream : Bytes) :
    RunSound object base (object.start base legacyNonceFallback stream) := by
  have placed := reader_placed object base legacyNonceFallback
  cases object with
  | single plaintext | multipart parts => exact .inr ⟨rfl, placed, [], .start rfl rfl rfl, rfl⟩

/-- Whatever bytes are read in place of the object: a run that meets the condition delivers a
prefix of the plaintext, and ends without an error only after all of it. The cipher is ideal: it
opens what was sealed and nothing else. -/
theorem tampered_run_sound {events : List ReaderRun.Event} {legacyNonceFallback : Bool} {stream : Bytes}
    (ideal : Ideal cipher (sealedFrames crc (object.segments base)))
    (distinct : (object.numbers.map (· % 2 ^ 32)).Nodup)
    (meets : RunMeets cipher crc object base (object.start base legacyNonceFallback stream) events) :
    let run := (object.start base legacyNonceFallback stream).ticks cipher crc events
    run.delivered <+: object.plaintext ∧ (run.status = .ended → run.delivered = object.plaintext) := by
  intro run
  have sound : RunSound object base run := ticks_sound ideal distinct meets (start_sound _ _)
  unfold RunSound at sound
  split at sound
  · rename_i active
    exact ⟨(prefix_append _ _).trans (sound_start sound), fun ended => by
      rw [active] at ended
      cases ended⟩
  · exact ⟨sound ▸ prefix_rfl, fun _ => sound⟩
  · rename_i failed
    exact ⟨sound, fun ended => by
      rw [failed] at ended
      cases ended⟩

end Runs

instance (listed : Nat) (run : ReaderRun) (event : ReaderRun.Event) :
    Decidable (EarlyEnd listed run event) :=
  match event with
  | .ask (.ready _) => inferInstanceAs (Decidable (_ ∧ _ ∧ (_ ∨ _)))
  | .ask .pending => inferInstanceAs (Decidable False)
  | .ask (.failed _) => inferInstanceAs (Decidable False)
  | .serve _ => inferInstanceAs (Decidable False)

instance (numbers : List Nat) (reader : DecryptReader) : Decidable (Recounted numbers reader) :=
  inferInstanceAs (Decidable (_ ∧ _))

instance (object : StoredObject) (base : Nonce) (run : ReaderRun) (event : ReaderRun.Event) :
    Decidable (StepMeets object base run event) :=
  inferInstanceAs (Decidable (_ ∧ _))

def runMeetsDecidable (cipher : Cipher) (crc : Bytes → UInt32) (object : StoredObject) (base : Nonce) :
    (run : ReaderRun) → (events : List ReaderRun.Event) →
      Decidable (RunMeets cipher crc object base run events)
  | _, [] => inferInstanceAs (Decidable True)
  | run, event :: events =>
    @instDecidableAnd _ _ (inferInstance)
      (runMeetsDecidable cipher crc object base (run.tick cipher crc event) events)

instance (cipher : Cipher) (crc : Bytes → UInt32) (object : StoredObject) (base : Nonce)
    (run : ReaderRun) (events : List ReaderRun.Event) :
    Decidable (RunMeets cipher crc object base run events) :=
  runMeetsDecidable cipher crc object base run events

def recordedCipher (frames : List SealedFrame) : Cipher where
  encrypt nonce _ plaintext := plaintext ++ (nonce.bytes ++ [0, 0, 0, 0])
  decrypt nonce aad ciphertext := frames.findSome? fun frame =>
    if frame.1 = nonce ∧ frame.2.1 = aad ∧ ciphertext = frame.2.2 ++ (nonce.bytes ++ [0, 0, 0, 0]) then
      some frame.2.2
    else none

theorem recorded_ideal (frames : List SealedFrame) : Ideal (recordedCipher frames) frames where
  correct nonce aad plaintext member := by
    cases found : (recordedCipher frames).decrypt nonce aad
        ((recordedCipher frames).encrypt nonce aad plaintext) with
    | none =>
      have missed := findSome?_eq_none_iff.1 found _ member
      simp [recordedCipher] at missed
    | some other =>
      obtain ⟨frame, _, isOther⟩ := exists_of_findSome?_eq_some found
      split at isOther
      · rename_i matching
        cases isOther
        rw [append_cancel_right matching.2.2]
      · cases isOther
  authentic nonce aad ciphertext plaintext opened := by
    obtain ⟨frame, member, isPlaintext⟩ := exists_of_findSome?_eq_some opened
    split at isPlaintext
    · rename_i matching
      obtain ⟨rfl, rfl, rfl⟩ := matching
      exact ⟨frame.2.2, member, rfl⟩
    · cases isPlaintext

def crc32Round (crc : UInt32) : UInt32 :=
  if crc &&& 1 = 1 then (crc >>> 1) ^^^ 0xEDB88320 else crc >>> 1

def crc32 (bytes : Bytes) : UInt32 :=
  bytes.foldl (fun crc byte => Nat.iterate crc32Round 8 (crc ^^^ byte.toUInt32)) 0xFFFFFFFF ^^^ 0xFFFFFFFF

def zeroNonce : Nonce := ⟨List.replicate 12 (UInt8.ofNat 0), List.length_replicate⟩

def twoParts : StoredObject := .multipart [(1, [1]), (2, [2])]

def twoPartsCipher : Cipher := recordedCipher (sealedFrames crc32 (twoParts.segments zeroNonce))

def partSegment (number : Nat) (plaintext : Bytes) : Bytes :=
  v2Segment twoPartsCipher crc32 (derivePartNonce zeroNonce number) plaintext

/-- A segment of one frame, taken in whole. -/
def segmentEvents : List ReaderRun.Event :=
  [.ask (.ready 7), .ask (.ready 7), .ask .pending, .ask (.ready 100), .serve 10, .ask (.ready 7)]

def closing : List ReaderRun.Event := [.ask (.ready 0), .serve 1]

theorem two_parts_read :
    let run := (twoParts.start zeroNonce true (partSegment 1 [1] ++ partSegment 2 [2])).ticks
      twoPartsCipher crc32 (segmentEvents ++ segmentEvents ++ closing)
    run.status = .ended ∧ run.delivered = twoParts.plaintext := by
  intro run
  have sound := @tampered_run_sound twoPartsCipher crc32 twoParts zeroNonce
    (segmentEvents ++ segmentEvents ++ closing) true (partSegment 1 [1] ++ partSegment 2 [2])
    (recorded_ideal _) (by decide) (by decide)
  have ended : run.status = .ended := rfl
  exact ⟨ended, sound.2 ended⟩

/-- A terminator in the place of the first segment. -/
theorem part_cut_out :
    Ideal twoPartsCipher (sealedFrames crc32 (twoParts.segments zeroNonce)) ∧
      twoParts.numbers.Nodup ∧
      let run := (twoParts.start zeroNonce true (endHeader ++ partSegment 2 [2])).ticks
        twoPartsCipher crc32 (.ask (.ready 7) :: segmentEvents ++ closing)
      run.status = .ended ∧ ¬run.delivered <+: twoParts.plaintext := by
  refine ⟨recorded_ideal _, by decide, ?_⟩
  intro run
  have delivered : run.delivered = [2] := by decide
  have ended : run.status = .ended := rfl
  rw [delivered]
  exact ⟨ended, by decide⟩

end Rustfs.Rio
