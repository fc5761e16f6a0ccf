import Rustfs.Rio.EncryptReader
import Rustfs.Library.Blocks

/-!
# Nonces of a multipart upload

Every `UploadPart` call reads the key and the base nonce of the session back and encrypts under a
nonce that depends only on the number of the part and the index of the frame. A nonce is used for
two different frames if and only if a part number is uploaded again with other frames. The recovery
of key and nonce from the metadata gives every call the same and is not modelled; compression in
front of the writer and uploads that fail half way are left out.
-/

namespace Rustfs.App

open List Rio Library
open Library.ByteReader (Bytes)

def maxMultipartPartNumber : Int := 10000

inductive EncryptionKeyKind
  | direct
  | object
  deriving DecidableEq

/-- What `sse_decryption` gives for the metadata of the session. -/
structure SessionMaterial where
  keyBytes : Bytes
  baseNonce : Nonce
  keyKind : EncryptionKeyKind

inductive WriteEncryptionMode
  | singlepartObjectKey
  | singlepart (baseNonce : Nonce)
  | multipartLegacy (baseNonce : Nonce) (multipartPartNumber : Nat)
  | multipartObjectKey (multipartPartNumber : Nat)

structure WriteEncryption where
  keyBytes : Bytes
  mode : WriteEncryptionMode

def WriteEncryption.multipart (keyBytes : Bytes) (baseNonce : Nonce) (partNumber : Nat) :
    WriteEncryption :=
  ⟨keyBytes, .multipartLegacy baseNonce partNumber⟩

def WriteEncryption.multipartObjectKey (objectKey : Bytes) (partNumber : Nat) : WriteEncryption :=
  ⟨objectKey, .multipartObjectKey partNumber⟩

def noNonce : Nonce := ⟨List.replicate 12 0, List.length_replicate⟩

/-- The nonce that `WritePlan::apply` starts the writer with, for v1 and v2 frames alike. -/
def WriteEncryption.writerNonce (encryption : WriteEncryption) : Nonce :=
  match encryption.mode with
  | .singlepartObjectKey => noNonce
  | .singlepart baseNonce => baseNonce
  | .multipartLegacy baseNonce partNumber => derivePartNonce baseNonce partNumber
  | .multipartObjectKey partNumber => derivePartNonce noNonce partNumber

def sessionEncryption (material : SessionMaterial) (partId : Nat) : WriteEncryption :=
  match material.keyKind with
  | .object => .multipartObjectKey material.keyBytes (partId % 2 ^ 32)
  | .direct => .multipart material.keyBytes material.baseNonce partId

/-- The body of a part as it reaches the writer: v1 frames are cut as the body is read, v2 frames
into blocks of one size. -/
inductive PartBody
  | v1 (reads : List Bytes)
  | v2 (body : Bytes)

def v2Blocks (body : Bytes) : List Bytes := (List.range (finalIndex body + 1)).map (frameBlock body)

def PartBody.frames : PartBody → List Bytes
  | v1 reads => reads
  | v2 body => v2Blocks body

structure EncryptedFrame where
  key : Bytes
  nonce : Nonce
  plaintext : Bytes
  deriving DecidableEq

def encryptFrames (encryption : WriteEncryption) (frames : List Bytes) : List EncryptedFrame :=
  frames.mapIdx fun blockIndex plaintext =>
    ⟨encryption.keyBytes, deriveBlockNonce encryption.writerNonce blockIndex, plaintext⟩

structure UploadPart where
  partNumber : Int
  body : PartBody

/-- `none` stands for the error `InvalidArgument`. -/
def parseUploadPartNumber (partNumber : Int) : Option Nat :=
  if 1 ≤ partNumber ∧ partNumber ≤ maxMultipartPartNumber then some partNumber.toNat else none

/-- What the frames of an upload were encrypted with; its material does not change. -/
structure UploadSession where
  material : SessionMaterial
  encrypted : List EncryptedFrame

def UploadSession.uploadPart (session : UploadSession) (call : UploadPart) : UploadSession :=
  match parseUploadPartNumber call.partNumber with
  | none => session
  | some partId =>
    { session with
      encrypted := session.encrypted ++
        encryptFrames (sessionEncryption session.material partId) call.body.frames }

def uploadParts (material : SessionMaterial) (calls : List UploadPart) : UploadSession :=
  calls.foldl UploadSession.uploadPart ⟨material, []⟩

/-- Frames under one key and nonce have one plaintext. -/
def NoNonceReuse (session : UploadSession) : Prop :=
  ∀ first ∈ session.encrypted, ∀ second ∈ session.encrypted,
    first.key = second.key → first.nonce = second.nonce → first.plaintext = second.plaintext

/-- Frames of two uploads of a part agree: v2 frames if and only if the bodies do. -/
def SameFrames : PartBody → PartBody → Prop
  | .v2 first, .v2 second => first = second
  | first, second => first.frames <+: second.frames ∨ second.frames <+: first.frames

instance (first second : PartBody) : Decidable (SameFrames first second) :=
  match first, second with
  | .v2 _, .v2 _ => inferInstanceAs (Decidable (_ = _))
  | .v1 _, .v1 _ => inferInstanceAs (Decidable (_ ∨ _))
  | .v1 _, .v2 _ => inferInstanceAs (Decidable (_ ∨ _))
  | .v2 _, .v1 _ => inferInstanceAs (Decidable (_ ∨ _))

theorem upload_part_encrypted (session : UploadSession) (call : UploadPart) {partId : Nat}
    (parsed : parseUploadPartNumber call.partNumber = some partId) :
    session.uploadPart call = { session with
      encrypted := session.encrypted ++
        encryptFrames (sessionEncryption session.material partId) call.body.frames } := by
  unfold UploadSession.uploadPart
  rw [parsed]

theorem upload_part_material (session : UploadSession) (call : UploadPart) :
    (session.uploadPart call).material = session.material := by
  unfold UploadSession.uploadPart
  split <;> rfl

theorem upload_parts_concat (material : SessionMaterial) (calls : List UploadPart) (call : UploadPart) :
    uploadParts material (calls ++ [call]) = (uploadParts material calls).uploadPart call := by
  unfold uploadParts
  rw [foldl_append, foldl_cons, foldl_nil]

theorem uploaded_material (material : SessionMaterial) (calls : List UploadPart) :
    (uploadParts material calls).material = material := by
  induction calls using List.reverseRecOn with
  | nil => rfl
  | append_singleton calls call ih => rw [upload_parts_concat, upload_part_material, ih]

theorem uploaded_frame_iff {material : SessionMaterial} {calls : List UploadPart}
    (valid : ∀ call ∈ calls, 1 ≤ call.partNumber ∧ call.partNumber ≤ maxMultipartPartNumber)
    (frame : EncryptedFrame) :
    frame ∈ (uploadParts material calls).encrypted ↔
      ∃ call ∈ calls, ∃ index plaintext, call.body.frames[index]? = some plaintext ∧
        frame = ⟨(sessionEncryption material call.partNumber.toNat).keyBytes,
          deriveBlockNonce (sessionEncryption material call.partNumber.toNat).writerNonce index,
          plaintext⟩ := by
  induction calls using List.reverseRecOn with
  | nil => simp [uploadParts]
  | append_singleton calls call ih =>
    have before := ih fun other member => valid other (mem_append_left _ member)
    have parsed : parseUploadPartNumber call.partNumber = some call.partNumber.toNat :=
      if_pos (valid call (by simp))
    rw [upload_parts_concat, upload_part_encrypted _ call parsed, uploaded_material]
    rw [mem_append, before]
    constructor
    · rintro (⟨other, member, rest⟩ | own)
      · exact ⟨other, mem_append_left _ member, rest⟩
      · obtain ⟨index, inside, isFrame⟩ := mem_mapIdx.1 own
        exact ⟨call, by simp, index, _, getElem?_eq_getElem inside, isFrame.symm⟩
    · intro ⟨other, member, index, plaintext, isPlaintext, isFrame⟩
      rcases mem_append.1 member with inCalls | isCall
      · exact .inl ⟨other, inCalls, index, plaintext, isPlaintext, isFrame⟩
      · rw [mem_singleton.1 isCall] at isPlaintext isFrame
        obtain ⟨inside, isElement⟩ := List.getElem?_eq_some_iff.1 isPlaintext
        exact .inr (mem_mapIdx.2 ⟨index, inside, by rw [isElement, isFrame]⟩)

theorem agree_iff_prefix {α : Type} {left right : List α} :
    (∀ (index : Nat) (first second : α), left[index]? = some first → right[index]? = some second →
      first = second) ↔
      left <+: right ∨ right <+: left := by
  induction left generalizing right with
  | nil =>
    constructor
    · exact fun _ => .inl (List.nil_prefix)
    · intro _ index first second isFirst
      cases isFirst
  | cons head left ih =>
    cases right with
    | nil =>
      constructor
      · exact fun _ => .inr (List.nil_prefix)
      · intro _ index first second _ isSecond
        cases isSecond
    | cons other right =>
      constructor
      · intro agree
        have same : head = other := agree 0 head other rfl rfl
        have later := ih.1 fun index first second => agree (index + 1) first second
        rw [same, prefix_cons_inj, prefix_cons_inj]
        exact later
      · intro comparable index first second isFirst isSecond
        have parts : head = other ∧ (left <+: right ∨ right <+: left) := by
          rcases comparable with starts | starts
          · obtain ⟨same, rest⟩ := cons_prefix_cons.1 starts
            exact ⟨same, .inl rest⟩
          · obtain ⟨same, rest⟩ := cons_prefix_cons.1 starts
            exact ⟨same.symm, .inr rest⟩
        cases index with
        | zero =>
          cases isFirst
          cases isSecond
          exact parts.1
        | succ index => exact ih.2 parts.2 index first second isFirst isSecond

theorem v2_blocks_flatten (body : Bytes) : (v2Blocks body).flatten = body := by
  have isBlock : frameBlock body = Blocks.block encryptionBlockSize body := by
    funext index
    unfold frameBlock Blocks.block
    rw [Nat.mul_comm]
  have covered : body.length ≤ (finalIndex body + 1) * encryptionBlockSize := by
    rw [Nat.mul_comm]
    exact (Nat.lt_mul_div_succ body.length (by decide)).le
  unfold v2Blocks
  rw [isBlock, Blocks.flatten_first_blocks, take_of_length_le covered]

theorem frame_block_length (body : Bytes) (index : Nat) :
    (frameBlock body index).length = min encryptionBlockSize (body.length - encryptionBlockSize * index) := by
  unfold frameBlock
  rw [length_take, length_drop]

theorem v2_blocks_start {first second : Bytes} (starts : v2Blocks first <+: v2Blocks second) :
    first = second := by
  have lengths := starts.length_le
  simp only [v2Blocks, length_map, length_range] at lengths
  have last : (v2Blocks first)[finalIndex first]? = some (frameBlock first (finalIndex first)) := by
    simp [v2Blocks]
  have there : (v2Blocks second)[finalIndex first]? = some (frameBlock second (finalIndex first)) := by
    have inside : finalIndex first < finalIndex second + 1 := by omega
    simp [v2Blocks, inside]
  have same : frameBlock first (finalIndex first) = frameBlock second (finalIndex first) :=
    agree_iff_prefix.2 (.inl starts) _ _ _ last there
  have short : (frameBlock first (finalIndex first)).length < encryptionBlockSize := by
    have below : first.length < encryptionBlockSize * (finalIndex first + 1) :=
      Nat.lt_mul_div_succ first.length (by decide)
    have positive : 0 < encryptionBlockSize := by decide
    rw [frame_block_length]
    rw [Nat.mul_succ] at below
    omega
  have notLonger : ¬finalIndex first < finalIndex second := by
    intro longer
    have room : encryptionBlockSize * (finalIndex first + 1) ≤ second.length :=
      (Nat.mul_le_mul_left _ longer).trans (Nat.mul_div_le second.length encryptionBlockSize)
    rw [same, frame_block_length] at short
    rw [Nat.mul_succ] at room
    omega
  have equal : v2Blocks first = v2Blocks second := by
    apply starts.eq_of_length
    simp only [v2Blocks, length_map, length_range]
    omega
  rw [← v2_blocks_flatten first, equal, v2_blocks_flatten]

theorem same_frames_iff (first second : PartBody) :
    SameFrames first second ↔ first.frames <+: second.frames ∨ second.frames <+: first.frames := by
  cases first with
  | v1 reads => cases second <;> rfl
  | v2 body =>
    cases second with
    | v1 reads => rfl
    | v2 other =>
      constructor
      · intro same
        cases same
        exact .inl prefix_rfl
      · rintro (starts | starts)
        · exact v2_blocks_start starts
        · exact (v2_blocks_start starts).symm

/-- No nonce of the upload is used for two different frames if and only if uploads of one part
number agree in their frames. Whether an upload of the number was replaced afterwards makes no
difference: both were sent. -/
theorem nonces_unique_iff {material : SessionMaterial} {calls : List UploadPart}
    (direct : material.keyKind = .direct)
    (valid : ∀ call ∈ calls, 1 ≤ call.partNumber ∧ call.partNumber ≤ maxMultipartPartNumber)
    (short : ∀ call ∈ calls, call.body.frames.length < 2 ^ 32) :
    NoNonceReuse (uploadParts material calls) ↔
      ∀ first ∈ calls, ∀ second ∈ calls, first.partNumber = second.partNumber →
        SameFrames first.body second.body := by
  have encryption (partId : Nat) : sessionEncryption material partId =
      .multipart material.keyBytes material.baseNonce partId := by
    unfold sessionEncryption
    rw [direct]
  constructor
  · intro unique first inFirst second inSecond sameNumber
    rw [same_frames_iff, ← agree_iff_prefix]
    intro index plaintext other isPlaintext isOther
    have firstFrame := (@uploaded_frame_iff material calls valid _).2
      ⟨first, inFirst, index, plaintext, isPlaintext, rfl⟩
    have secondFrame := (@uploaded_frame_iff material calls valid _).2
      ⟨second, inSecond, index, other, isOther, rfl⟩
    exact unique _ firstFrame _ secondFrame (by rw [sameNumber]) (by rw [sameNumber])
  · intro consistent frame inSession other alsoInSession _ sameNonce
    obtain ⟨first, inFirst, index, plaintext, isPlaintext, rfl⟩ :=
      (uploaded_frame_iff valid frame).1 inSession
    obtain ⟨second, inSecond, place, text, isText, rfl⟩ :=
      (uploaded_frame_iff valid other).1 alsoInSession
    rw [encryption, encryption] at sameNonce
    have firstValid := valid first inFirst
    have secondValid := valid second inSecond
    have parts := block_nonce_part sameNonce
    unfold maxMultipartPartNumber at firstValid secondValid
    have sameNumber : first.partNumber = second.partNumber := by omega
    have blocks : index % 2 ^ 32 = place % 2 ^ 32 := by
      rw [sameNumber] at sameNonce
      exact block_nonce_block sameNonce
    have inside := (List.getElem?_eq_some_iff.1 isPlaintext).1
    have alsoInside := (List.getElem?_eq_some_iff.1 isText).1
    have firstShort := short first inFirst
    have secondShort := short second inSecond
    obtain rfl : index = place := by omega
    have agree := agree_iff_prefix.2 ((same_frames_iff _ _).1
      (consistent first inFirst second inSecond sameNumber))
    exact agree index plaintext text isPlaintext isText

def directMaterial : SessionMaterial := ⟨[7], noNonce, .direct⟩

/-- Two parts, the second of them uploaded again as it was. -/
theorem repeated_part_keeps_nonces :
    NoNonceReuse (uploadParts directMaterial [⟨1, .v2 [1]⟩, ⟨2, .v2 [2]⟩, ⟨2, .v2 [2]⟩]) :=
  (@nonces_unique_iff directMaterial _ rfl (by decide) (by decide)).2 (by decide)

/-- A part that is uploaded again with another body. -/
theorem replaced_part_reuses_nonce :
    ¬NoNonceReuse (uploadParts directMaterial [⟨1, .v2 [1]⟩, ⟨1, .v2 [2]⟩]) := by
  intro unique
  have same := unique ⟨[7], deriveBlockNonce (derivePartNonce noNonce 1) 0, [1]⟩ (by decide)
    ⟨[7], deriveBlockNonce (derivePartNonce noNonce 1) 0, [2]⟩ (by decide) rfl rfl
  exact absurd same (by decide)

end Rustfs.App
