import Rustfs.Library.Glob

/-!
# Wildcards and condition keys

`policy/utils/wildcard.rs`. Rust strings are the lists of their UTF-8 bytes: `?` takes one byte,
so a longer character needs several of them. The simple match and the match of a pattern's
beginning are called by nothing here and left out.

`policy/function/key_name.rs` and `key.rs`: the known condition keys with the text each is written
as. The texts carry the namespace already. Parsing of keys is left out: a condition holds the key
it was parsed to.
-/

namespace Rustfs.Policy

open List Library

abbrev Str := List UInt8

def str (text : String) : Str := text.toByteArray.data.toList

namespace Wildcard

def star : UInt8 := 0x2a
def questionMark : UInt8 := 0x3f

/-- The branch of a `*` before a nonempty pattern: the rest is tried here, then
after every further byte. -/
def starMatch (rest : Str → Bool) : Str → Bool
  | [] => rest []
  | byte :: name => rest (byte :: name) || starMatch rest name

def deepMatch (simple : Bool) : (pattern name : Str) → Bool
  | [], name => name.isEmpty
  | token :: pattern, name =>
    if token = questionMark then
      match name with
      | [] => simple
      | _ :: name => deepMatch simple pattern name
    else if token = star then pattern.isEmpty || starMatch (deepMatch simple pattern) name
    else
      match name with
      | [] => false
      | byte :: name => byte = token && deepMatch simple pattern name

def innerMatch (pattern name : Str) (simple : Bool) : Bool :=
  if pattern.isEmpty then pattern = name
  else if pattern = [star] then true
  else deepMatch simple pattern name

def isMatch (pattern name : Str) : Bool := innerMatch pattern name false

def token (byte : UInt8) : Glob.Token UInt8 :=
  if byte = questionMark then .one else if byte = star then .many else .literal byte

/-- The texts that the glob accepts. -/
def Covers (pattern name : Str) : Prop := Glob.Matches (pattern.map token) name

theorem star_match_iff {rest : Str → Bool} (name : Str) :
    starMatch rest name = true ↔ ∃ front back, name = front ++ back ∧ rest back = true := by
  induction name with
  | nil =>
    constructor
    · intro matched
      exact ⟨[], [], rfl, matched⟩
    · rintro ⟨front, back, split, matched⟩
      obtain ⟨rfl, rfl⟩ := append_eq_nil_iff.1 split.symm
      exact matched
  | cons byte name ih =>
    rw [starMatch, Bool.or_eq_true, ih]
    constructor
    · rintro (matched | ⟨front, back, rfl, matched⟩)
      · exact ⟨[], byte :: name, rfl, matched⟩
      · exact ⟨byte :: front, back, rfl, matched⟩
    · rintro ⟨front, back, split, matched⟩
      cases front with
      | nil =>
        exact .inl (split ▸ matched)
      | cons head front =>
        obtain ⟨rfl, rfl⟩ := List.cons.inj split
        exact .inr ⟨front, back, rfl, matched⟩

variable {byte : UInt8}

theorem token_one (question : byte = questionMark) : token byte = .one :=
  if_pos question

theorem token_many (isStar : byte = star) : token byte = .many := by
  subst isStar
  rfl

theorem token_literal (notStar : byte ≠ star) (notQuestion : byte ≠ questionMark) :
    token byte = .literal byte := by
  unfold token
  rw [if_neg notQuestion, if_neg notStar]

theorem deep_match_iff (pattern name : Str) :
    deepMatch false pattern name = true ↔ Covers pattern name := by
  induction pattern generalizing name with
  | nil => exact List.isEmpty_iff
  | cons byte pattern ih =>
    unfold deepMatch
    unfold Covers at ih ⊢
    rw [map_cons]
    split
    · rename_i question
      rw [token_one question]
      cases name with
      | nil => simp [Glob.Matches]
      | cons first name => simp [Glob.Matches, ih]
    rename_i notQuestion
    split
    · rename_i isStar
      rw [token_many isStar, Bool.or_eq_true, star_match_iff]
      constructor
      · rintro (last | ⟨front, back, rfl, matched⟩)
        · rw [List.isEmpty_iff.1 last]
          exact ⟨name, [], (append_nil name).symm, rfl⟩
        · exact ⟨front, back, rfl, (ih back).1 matched⟩
      · rintro ⟨front, back, rfl, matched⟩
        exact .inr ⟨front, back, rfl, (ih back).2 matched⟩
    · rename_i notStar
      rw [token_literal notStar notQuestion]
      cases name with
      | nil => simp [Glob.Matches]
      | cons first name =>
        simp only [Bool.and_eq_true, decide_eq_true_eq, ih, Glob.Matches]
        constructor
        · rintro ⟨rfl, matched⟩
          exact ⟨name, rfl, matched⟩
        · rintro ⟨rest, same, matched⟩
          obtain ⟨rfl, rfl⟩ := List.cons.inj same
          exact ⟨rfl, matched⟩

theorem is_match_iff (pattern name : Str) : isMatch pattern name = true ↔ Covers pattern name := by
  unfold isMatch innerMatch
  split
  · rename_i empty
    rw [List.isEmpty_iff.1 empty, decide_eq_true_eq]
    exact ⟨Eq.symm, Eq.symm⟩
  split
  · rename_i isStar
    rw [isStar]
    exact ⟨fun _ => ⟨name, [], (append_nil name).symm, rfl⟩, fun _ => rfl⟩
  · exact deep_match_iff pattern name

theorem covers_append (left right name : Str) :
    Covers (left ++ right) name ↔
      ∃ front back, name = front ++ back ∧ Covers left front ∧ Covers right back := by
  unfold Covers
  rw [map_append, Glob.matches_append]

/-- A text without wildcard bytes. -/
def Plain (text : Str) : Prop := ∀ byte ∈ text, byte ≠ star ∧ byte ≠ questionMark

theorem covers_plain {word : Str} (plain : Plain word) (name : Str) :
    Covers word name ↔ name = word := by
  have literals : word.map token = word.map .literal := by
    apply map_congr_left
    intro byte member
    exact token_literal (plain byte member).1 (plain byte member).2
  unfold Covers
  rw [literals, Glob.matches_literal]

theorem covers_self (pattern : Str) : Covers pattern pattern := by
  induction pattern with
  | nil => rfl
  | cons byte pattern ih =>
    unfold Covers at ih ⊢
    rw [map_cons]
    by_cases question : byte = questionMark
    · rw [token_one question]
      exact ⟨byte, pattern, rfl, ih⟩
    by_cases isStar : byte = star
    · rw [token_many isStar]
      exact ⟨[byte], pattern, rfl, ih⟩
    · rw [token_literal isStar question]
      exact ⟨pattern, rfl, ih⟩

section Symbols

variable {symbol : UInt8} (literal : symbol ≠ star ∧ symbol ≠ questionMark)

include literal

theorem asked_token (pattern : Str) : Glob.asked symbol (pattern.map token) = pattern.count symbol := by
  induction pattern with
  | nil => rfl
  | cons byte pattern ih =>
    rw [map_cons, count_cons]
    by_cases question : byte = questionMark
    · have other : ¬ byte = symbol := fun same => literal.2 (same.symm.trans question)
      rw [token_one question, Glob.asked, ih]
      simp [other]
    by_cases isStar : byte = star
    · have other : ¬ byte = symbol := fun same => literal.1 (same.symm.trans isStar)
      rw [token_many isStar, Glob.asked, ih]
      simp [other]
    · rw [token_literal isStar question, Glob.asked, ih, Nat.add_comm]
      simp only [beq_iff_eq]

theorem covers_count {pattern name : Str} (covered : Covers pattern name) :
    pattern.count symbol ≤ name.count symbol := by
  rw [← asked_token literal]
  exact Glob.matches_asked symbol covered

theorem covers_lowered {other : UInt8} (different : other ≠ symbol) {related : UInt8 → UInt8 → Prop}
    (same : ∀ byte, related byte byte) (swapped : related other symbol) {pattern name : Str}
    (covered : Covers pattern name) :
    ∃ lowered, List.Forall₂ related lowered name ∧
      lowered.count symbol = pattern.count symbol ∧ Covers pattern lowered := by
  rw [← asked_token literal]
  exact Glob.matches_lowered different same swapped covered

end Symbols

end Wildcard

inductive S3KeyName
  | s3XAmzCopySource
  | s3XAmzServerSideEncryption
  | s3XAmzServerSideEncryptionCustomerAlgorithm
  | s3SignatureVersion
  | s3AuthType
  | s3SignatureAge
  | s3XAmzContentSha256
  | s3XAmzAcl
  | s3LocationConstraint
  | s3VersionId
  | s3ObjectLockRetainUntilDate
  | s3ObjectLockLegalHold
  | s3ObjectLockMode
  | s3MaxKeys
  | s3XAmzMetadataDirective
  | s3XAmzStorageClass
  | s3Prefix
  | s3Delimiter
  | s3XAmzGrantFullControl
  | s3XAmzGrantRead
  | s3XAmzGrantWrite
  | s3XAmzGrantReadAcp
  | s3XAmzGrantWriteAcp
  | s3ExistingObjectTag
  | s3RequestObjectTagKeys
  | s3RequestObjectTag
  deriving DecidableEq

def S3KeyName.text : S3KeyName → String
  | .s3XAmzCopySource => "s3:x-amz-copy-source"
  | .s3XAmzServerSideEncryption => "s3:x-amz-server-side-encryption"
  | .s3XAmzServerSideEncryptionCustomerAlgorithm => "s3:x-amz-server-side-encryption-customer-algorithm"
  | .s3SignatureVersion => "s3:signatureversion"
  | .s3AuthType => "s3:authType"
  | .s3SignatureAge => "s3:signatureAge"
  | .s3XAmzContentSha256 => "s3:x-amz-content-sha256"
  | .s3XAmzAcl => "s3:x-amz-acl"
  | .s3LocationConstraint => "s3:LocationConstraint"
  | .s3VersionId => "s3:versionid"
  | .s3ObjectLockRetainUntilDate => "s3:object-lock-retain-until-date"
  | .s3ObjectLockLegalHold => "s3:object-lock-legal-hold"
  | .s3ObjectLockMode => "s3:object-lock-mode"
  | .s3MaxKeys => "s3:max-keys"
  | .s3XAmzMetadataDirective => "s3:x-amz-metadata-directive"
  | .s3XAmzStorageClass => "s3:x-amz-storage-class"
  | .s3Prefix => "s3:prefix"
  | .s3Delimiter => "s3:delimiter"
  | .s3XAmzGrantFullControl => "s3:x-amz-grant-full-control"
  | .s3XAmzGrantRead => "s3:x-amz-grant-read"
  | .s3XAmzGrantWrite => "s3:x-amz-grant-write"
  | .s3XAmzGrantReadAcp => "s3:x-amz-grant-read-acp"
  | .s3XAmzGrantWriteAcp => "s3:x-amz-grant-write-acp"
  | .s3ExistingObjectTag => "s3:ExistingObjectTag"
  | .s3RequestObjectTagKeys => "s3:RequestObjectTagKeys"
  | .s3RequestObjectTag => "s3:RequestObjectTag"

inductive JwtKeyName
  | jwtSub
  | jwtIss
  | jwtAud
  | jwtJti
  | jwtName
  | jwtUpn
  | jwtGroups
  | jwtRoles
  | jwtGivenName
  | jwtFamilyName
  | jwtMiddleName
  | jwtNickName
  | jwtPrefUsername
  | jwtProfile
  | jwtPicture
  | jwtWebsite
  | jwtEmail
  | jwtGender
  | jwtBirthdate
  | jwtPhoneNumber
  | jwtAddress
  | jwtScope
  | jwtClientID
  deriving DecidableEq

def JwtKeyName.text : JwtKeyName → String
  | .jwtSub => "jwt:sub"
  | .jwtIss => "jwt:iss"
  | .jwtAud => "jwt:aud"
  | .jwtJti => "jwt:jti"
  | .jwtName => "jwt:name"
  | .jwtUpn => "jwt:upn"
  | .jwtGroups => "jwt:groups"
  | .jwtRoles => "jwt:roles"
  | .jwtGivenName => "jwt:given_name"
  | .jwtFamilyName => "jwt:family_name"
  | .jwtMiddleName => "jwt:middle_name"
  | .jwtNickName => "jwt:nickname"
  | .jwtPrefUsername => "jwt:preferred_username"
  | .jwtProfile => "jwt:profile"
  | .jwtPicture => "jwt:picture"
  | .jwtWebsite => "jwt:website"
  | .jwtEmail => "jwt:email"
  | .jwtGender => "jwt:gender"
  | .jwtBirthdate => "jwt:birthdate"
  | .jwtPhoneNumber => "jwt:phone_number"
  | .jwtAddress => "jwt:address"
  | .jwtScope => "jwt:scope"
  | .jwtClientID => "jwt:client_id"

inductive SvcKeyName
  | svcDurationSeconds
  deriving DecidableEq

def SvcKeyName.text : SvcKeyName → String
  | .svcDurationSeconds => "svc:DurationSeconds"

inductive LdapKeyName
  | user
  | username
  | groups
  deriving DecidableEq

def LdapKeyName.text : LdapKeyName → String
  | .user => "ldap:user"
  | .username => "ldap:username"
  | .groups => "ldap:groups"

inductive StsKeyName
  | stsDurationSeconds
  deriving DecidableEq

def StsKeyName.text : StsKeyName → String
  | .stsDurationSeconds => "sts:DurationSeconds"

inductive AwsKeyName
  | awsReferer
  | awsSourceIP
  | awsUserAgent
  | awsSecureTransport
  | awsCurrentTime
  | awsEpochTime
  | awsPrincipalType
  | awsUserID
  | awsUsername
  | awsGroups
  | awsSourceArn
  | awsSourceAccount
  deriving DecidableEq

def AwsKeyName.text : AwsKeyName → String
  | .awsReferer => "aws:Referer"
  | .awsSourceIP => "aws:SourceIp"
  | .awsUserAgent => "aws:UserAgent"
  | .awsSecureTransport => "aws:SecureTransport"
  | .awsCurrentTime => "aws:CurrentTime"
  | .awsEpochTime => "aws:EpochTime"
  | .awsPrincipalType => "aws:principaltype"
  | .awsUserID => "aws:userid"
  | .awsUsername => "aws:username"
  | .awsGroups => "aws:groups"
  | .awsSourceArn => "aws:SourceArn"
  | .awsSourceAccount => "aws:SourceAccount"

inductive KeyName
  | aws (key : AwsKeyName)
  | jwt (key : JwtKeyName)
  | ldap (key : LdapKeyName)
  | sts (key : StsKeyName)
  | svc (key : SvcKeyName)
  | s3 (key : S3KeyName)
  deriving DecidableEq

namespace KeyName

def text : KeyName → String
  | aws key => key.text
  | jwt key => key.text
  | ldap key => key.text
  | sts key => key.text
  | svc key => key.text
  | s3 key => key.text

def namespaceText : KeyName → String
  | aws _ => "aws:"
  | jwt _ => "jwt:"
  | ldap _ => "ldap:"
  | sts _ => "sts:"
  | svc _ => "svc:"
  | s3 _ => "s3:"

def name (key : KeyName) : Str := (str key.text).drop (str key.namespaceText).length

/-- The marker the evaluation replaces: the namespace, and the text that carries it
a second time. -/
def varName (key : KeyName) : Str :=
  str "$\x7b" ++ str key.namespaceText ++ str key.text ++ str "\x7d"

def commonKeys : List KeyName :=
  [.s3 .s3SignatureVersion, .s3 .s3AuthType, .s3 .s3SignatureAge, .s3 .s3XAmzContentSha256, .s3
   .s3LocationConstraint, .s3 .s3VersionId, .aws .awsReferer, .aws .awsSourceIP, .aws
   .awsUserAgent, .aws .awsSecureTransport, .aws .awsCurrentTime, .aws .awsEpochTime, .aws
   .awsPrincipalType, .aws .awsUserID, .aws .awsUsername, .aws .awsGroups, .ldap .user, .ldap
   .username, .ldap .groups, .jwt .jwtSub, .jwt .jwtIss, .jwt .jwtAud, .jwt .jwtJti, .jwt
   .jwtName, .jwt .jwtUpn, .jwt .jwtGroups, .jwt .jwtRoles, .jwt .jwtGivenName, .jwt
   .jwtFamilyName, .jwt .jwtMiddleName, .jwt .jwtNickName, .jwt .jwtPrefUsername, .jwt
   .jwtProfile, .jwt .jwtPicture, .jwt .jwtWebsite, .jwt .jwtEmail, .jwt .jwtGender, .jwt
   .jwtBirthdate, .jwt .jwtPhoneNumber, .jwt .jwtAddress, .jwt .jwtScope, .jwt .jwtClientID]

end KeyName

structure Key where
  name : KeyName
  variableText : Option Str
  deriving DecidableEq

namespace Key

def isKey (key : Key) (other : KeyName) : Bool := key.name = other

/-- The key of the condition map, with the part behind the slash. -/
def mapKey (key : Key) : Str :=
  match key.variableText with
  | some rest => key.name.name ++ str "/" ++ rest
  | none => key.name.name

end Key

/-- The condition map of a request. -/
abbrev ConditionValues := List (Str × List Str)

def firstValue (values : ConditionValues) (key : KeyName) : Option Str :=
  match (values.lookup key.name).bind List.head? with
  | some value => if value.isEmpty then none else some value
  | none => none

example : KeyName.varName (.jwt .jwtSub) = str "$\x7bjwt:jwt:sub\x7d" := by decide

end Rustfs.Policy
