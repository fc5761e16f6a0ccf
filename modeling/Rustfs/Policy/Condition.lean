import Rustfs.Policy.Resource
import Rustfs.Library.ShortCircuit

/-!
# Condition operators

The operator families of `policy/function/`: each has its own loop over the keys of
a block, with its own early returns. Parsers of other crates, and the case folding
of strings, are the parameters of an evaluation.

`policy/function/condition.rs` and `policy/function.rs`: the operators of a policy,
grouped by the function that evaluates them.

`policy/function/addr.rs`: from the texts of a policy to the answer of `IpAddress` and
`NotIpAddress`. A text without a slash gets the prefix length 32 before its family is
known, so an IPv6 address stands for a network of 96 free bits. Serialized forms are
left out.
-/

variable {values : ConditionValues}

namespace Rustfs.Policy

open List Variables Wildcard Library.ShortCircuit

inductive IpAddr
  | v4 (bits : BitVec 32)
  | v6 (bits : BitVec 128)
  deriving DecidableEq

/-- An address with the length of the network part. -/
inductive IpNetwork
  | v4 (bits : BitVec 32) (length : Nat)
  | v6 (bits : BitVec 128) (length : Nat)
  deriving DecidableEq

/-- Addresses of the same family that agree in the network part. -/
def IpNetwork.contains : IpNetwork → IpAddr → Bool
  | v4 bits length, .v4 address => bits >>> (32 - length) = address >>> (32 - length)
  | v6 bits length, .v6 address => bits >>> (128 - length) = address >>> (128 - length)
  | _, _ => false

structure Parsers where
  toLowercase : Str → Str
  base64 : Str → Option Str
  /-- An instant, as nanoseconds since the epoch. -/
  rfc3339 : Str → Option Int
  address : Str → Option IpAddr

inductive Quantifier
  | none
  | forAnyValue
  | forAllValues
  deriving DecidableEq

structure FuncKeyValue (α : Type) where
  key : Key
  values : α
  deriving DecidableEq

abbrev InnerFunc (α : Type) := List (FuncKeyValue α)

namespace InnerFunc

variable {α : Type}

def keyNames (func : InnerFunc α) : List Str := func.map fun inner => inner.key.mapKey

def containsKeyName (func : InnerFunc α) (keyName : KeyName) : Bool :=
  func.any fun inner => inner.key.isKey keyName

end InnerFunc

def FuncKeyValue.first {α : Type} (values : ConditionValues) (inner : FuncKeyValue α) : Option Str :=
  (values.lookup inner.key.mapKey).bind List.head?

/-- A set of strings, in the order it is iterated in. -/
abbrev StringFunc := InnerFunc (List Str)

/-- The replacement in a condition value: the first common key that is present is
replaced, and no other one. -/
def replaceFirstKey (values : ConditionValues) (text : Str) : Str :=
  match KeyName.commonKeys.find? fun key => (firstValue values key).isSome with
  | some key => replaceKey values text key
  | none => text

namespace StringFunc

/-- The values of a pair, resolved and with the common key replaced. -/
def patterns (fuel : Nat) (values : ConditionValues) (resolver : Option Resolver)
    (inner : FuncKeyValue (List Str)) : Option (List Str) :=
  (inner.values.mapM (resolveWith resolver fuel)).map fun resolved =>
    resolved.flatten.map (replaceFirstKey values)

def fold (parsers : Parsers) (ignoreCase : Bool) (text : Str) : Str :=
  if ignoreCase then parsers.toLowercase text else text

def eval (parsers : Parsers) (fuel : Nat) (quantifier : Quantifier) (ignoreCase negate : Bool)
    (values : ConditionValues) (resolver : Option Resolver) (inner : FuncKeyValue (List Str)) :
    Option Bool :=
  (patterns fuel values resolver inner).map fun found =>
    let rvalues := ((values.lookup inner.key.mapKey).getD []).map (fold parsers ignoreCase)
    let fvalues := found.map (fold parsers ignoreCase)
    match quantifier with
    | .none => rvalues.any fun value => fvalues.contains value
    | .forAllValues => rvalues.all fun value => fvalues.contains value ^^ negate
    | .forAnyValue => rvalues.any fun value => fvalues.contains value ^^ negate

/-- The loop over the values of the request. -/
def likeLoop (quantifier : Quantifier) (negate : Bool) (patterns : Option (List Str)) :
    List Str → Option Bool
  | [] => some (quantifier = .forAllValues)
  | value :: rest =>
    match patterns with
    | none => none
    | some found =>
      let matched := found.any fun pattern => isMatch pattern value
      let holds := if quantifier = .none then matched else matched ^^ negate
      if quantifier = .forAllValues then
        if holds then likeLoop quantifier negate patterns rest else some false
      else if holds then some true
      else likeLoop quantifier negate patterns rest

def evalLike (fuel : Nat) (quantifier : Quantifier) (negate : Bool) (values : ConditionValues)
    (resolver : Option Resolver) (inner : FuncKeyValue (List Str)) : Option Bool :=
  match values.lookup inner.key.mapKey with
  | some rvalues => likeLoop quantifier negate (patterns fuel values resolver inner) rvalues
  | none => some (quantifier = .forAllValues)

/-- One pair of the loop. Without a quantifier the negation is of the aggregate. -/
def evaluateKey (parsers : Parsers) (fuel : Nat) (quantifier : Quantifier)
    (ignoreCase like negate : Bool) (values : ConditionValues) (resolver : Option Resolver)
    (inner : FuncKeyValue (List Str)) : Option Bool :=
  match quantifier with
  | .none =>
    (if like then evalLike fuel quantifier false values resolver inner
    else eval parsers fuel quantifier ignoreCase false values resolver inner).map (· ^^ negate)
  | _ =>
    if like then evalLike fuel quantifier negate values resolver inner
    else eval parsers fuel quantifier ignoreCase negate values resolver inner

def evaluateWithResolver (parsers : Parsers) (fuel : Nat) (quantifier : Quantifier)
    (ignoreCase like negate : Bool) (values : ConditionValues) (resolver : Option Resolver)
    (func : StringFunc) : Option Bool :=
  func.allM (evaluateKey parsers fuel quantifier ignoreCase like negate values resolver)

end StringFunc

abbrev BinaryFunc := InnerFunc (List Str)

def BinaryFunc.evaluateKey (parsers : Parsers) (values : ConditionValues)
    (inner : FuncKeyValue (List Str)) : Bool :=
  match values.lookup inner.key.mapKey with
  | none => false
  | some rvalues =>
    match rvalues.mapM parsers.base64 with
    | none => false
    | some decoded => decoded.any fun value => inner.values.contains value

def BinaryFunc.evaluate (parsers : Parsers) (values : ConditionValues) (func : BinaryFunc) : Bool :=
  func.all (BinaryFunc.evaluateKey parsers values)

abbrev AddrFunc := InnerFunc (List IpNetwork)

/-- The loop over the request values of a pair; `some` is an early return of the
evaluation. -/
def AddrFunc.scan (parsers : Parsers) (networks : List IpNetwork) : List Str → Option Bool
  | [] => none
  | value :: rest =>
    match parsers.address value with
    | none => some false
    | some address =>
      if networks.any fun network => network.contains address then some true
      else AddrFunc.scan parsers networks rest

def AddrFunc.evaluate (parsers : Parsers) (values : ConditionValues) : AddrFunc → Bool
  | [] => false
  | inner :: rest =>
    match AddrFunc.scan parsers inner.values ((values.lookup inner.key.mapKey).getD []) with
    | some result => result
    | none => AddrFunc.evaluate parsers values rest

abbrev BoolFunc := InnerFunc Bool

def BoolFunc.evaluateBool (values : ConditionValues) (func : BoolFunc) : Bool :=
  func.all fun inner =>
    match inner.first values with
    | some value => VariableContext.boolText inner.values = value
    | none => false

def BoolFunc.evaluateNull (values : ConditionValues) (func : BoolFunc) : Bool :=
  func.all fun inner =>
    let absent := ((values.lookup inner.key.mapKey).getD []).isEmpty
    if inner.values then absent else !absent

abbrev NumberFunc := InnerFunc Int

def decimalDigit (byte : UInt8) : Option Nat :=
  if 0x30 ≤ byte ∧ byte ≤ 0x39 then some (byte.toNat - 0x30) else none

def parseDigits : Str → Option Nat
  | [] => none
  | digits => (digits.mapM decimalDigit).map fun values =>
    values.foldl (fun total digit => 10 * total + digit) 0

/-- `str::parse` for `i64`. -/
def parseI64 (text : Str) : Option Int :=
  let parsed : Option Int :=
    match text with
    | [] => none
    | byte :: rest =>
      if byte = 0x2d then (parseDigits rest).map fun value => - (value : Int)
      else if byte = 0x2b then (parseDigits rest).map fun value => (value : Int)
      else (parseDigits text).map fun value => (value : Int)
  parsed.filter fun value => - 9223372036854775808 ≤ value ∧ value ≤ 9223372036854775807

/-- A key without a value ends the loop, with the answer the caller asks for. -/
def NumberFunc.evaluate (op : Int → Int → Bool) (ifExists : Bool) (values : ConditionValues) :
    NumberFunc → Bool
  | [] => true
  | inner :: rest =>
    match inner.first values with
    | none => ifExists
    | some value =>
      match parseI64 value with
      | none => false
      | some rv => if op rv inner.values then NumberFunc.evaluate op ifExists values rest else false

abbrev DateFunc := InnerFunc Int

def DateFunc.evaluate (parsers : Parsers) (op : Int → Int → Bool) (values : ConditionValues)
    (func : DateFunc) : Bool :=
  func.all fun inner =>
    match inner.first values with
    | none => false
    | some value =>
      match parsers.rfc3339 value with
      | none => false
      | some rv => op rv inner.values

inductive StringOperator
  | stringEquals
  | stringNotEquals
  | stringEqualsIgnoreCase
  | stringNotEqualsIgnoreCase
  | stringLike
  | stringNotLike
  | arnLike
  | arnNotLike
  | arnEquals
  | arnNotEquals
  deriving DecidableEq

namespace StringOperator

def ignoreCase : StringOperator → Bool
  | stringEqualsIgnoreCase | stringNotEqualsIgnoreCase => true
  | _ => false

def like : StringOperator → Bool
  | stringLike | stringNotLike | arnLike | arnNotLike => true
  | _ => false

def negate : StringOperator → Bool
  | stringNotEquals | stringNotEqualsIgnoreCase | stringNotLike | arnNotLike | arnNotEquals => true
  | _ => false

end StringOperator

inductive AddrOperator
  | ipAddress
  | notIpAddress
  deriving DecidableEq

inductive BoolOperator
  | null
  | bool
  deriving DecidableEq

inductive NumberOperator
  | numericEquals
  | numericNotEquals
  | numericLessThan
  | numericLessThanEquals
  | numericGreaterThan
  | numericGreaterThanIfExists
  | numericGreaterThanEquals
  deriving DecidableEq

namespace NumberOperator

def op : NumberOperator → Int → Int → Bool
  | numericEquals => fun left right => left = right
  | numericNotEquals => fun left right => left ≠ right
  | numericLessThan => fun left right => left < right
  | numericLessThanEquals => fun left right => left ≤ right
  | numericGreaterThan => fun left right => right < left
  | numericGreaterThanIfExists => fun left right => right ≤ left
  | numericGreaterThanEquals => fun left right => right ≤ left

def ifExists : NumberOperator → Bool
  | numericGreaterThanIfExists => true
  | _ => false

end NumberOperator

inductive DateOperator
  | dateEquals
  | dateNotEquals
  | dateLessThan
  | dateLessThanEquals
  | dateGreaterThan
  | dateGreaterThanEquals
  deriving DecidableEq

def DateOperator.op : DateOperator → Int → Int → Bool
  | dateEquals => fun left right => left = right
  | dateNotEquals => fun left right => left ≠ right
  | dateLessThan => fun left right => left < right
  | dateLessThanEquals => fun left right => left ≤ right
  | dateGreaterThan => fun left right => right < left
  | dateGreaterThanEquals => fun left right => right ≤ left

inductive Condition
  | string (operator : StringOperator) (func : StringFunc)
  | binaryEquals (func : BinaryFunc)
  | address (operator : AddrOperator) (func : AddrFunc)
  | bool (operator : BoolOperator) (func : BoolFunc)
  | number (operator : NumberOperator) (func : NumberFunc)
  | date (operator : DateOperator) (func : DateFunc)
  | ifExists (inner : Condition)

namespace Condition

def keyNames : Condition → List Str
  | string _ func => func.keyNames
  | binaryEquals func => func.keyNames
  | address _ func => func.keyNames
  | bool _ func => func.keyNames
  | number _ func => func.keyNames
  | date _ func => func.keyNames
  | ifExists inner => inner.keyNames

def hasAnyKeyIn (condition : Condition) (values : ConditionValues) : Bool :=
  condition.keyNames.any fun key => (values.lookup key).isSome

def referencesKeyName (keyName : KeyName) : Condition → Bool
  | string _ func => func.containsKeyName keyName
  | binaryEquals func => func.containsKeyName keyName
  | address _ func => func.containsKeyName keyName
  | bool _ func => func.containsKeyName keyName
  | number _ func => func.containsKeyName keyName
  | date _ func => func.containsKeyName keyName
  | ifExists inner => inner.referencesKeyName keyName

def isNegate : Condition → Bool
  | address .notIpAddress _ => true
  | _ => false

def evaluateWithResolver (parsers : Parsers) (fuel : Nat) (quantifier : Quantifier)
    (values : ConditionValues) (resolver : Option Resolver) : Condition → Option Bool
  | string operator func =>
    func.evaluateWithResolver parsers fuel quantifier operator.ignoreCase operator.like
      operator.negate values resolver
  | binaryEquals func => some (func.evaluate parsers values)
  | address operator func =>
    some (isNegate (.address operator func) ^^ func.evaluate parsers values)
  | bool .null func => some (func.evaluateNull values)
  | bool .bool func => some (func.evaluateBool values)
  | number operator func => some (func.evaluate operator.op operator.ifExists values)
  | date operator func => some (func.evaluate parsers operator.op values)
  | ifExists inner =>
    if inner.hasAnyKeyIn values then inner.evaluateWithResolver parsers fuel quantifier values resolver
    else some true

def oneKeyBlocks : Condition → List Condition
  | string operator func => func.map fun inner => string operator [inner]
  | binaryEquals func => func.map fun inner => binaryEquals [inner]
  | address operator func => func.map fun inner => address operator [inner]
  | bool operator func => func.map fun inner => bool operator [inner]
  | number operator func => func.map fun inner => number operator [inner]
  | date operator func => func.map fun inner => date operator [inner]
  | ifExists inner => inner.oneKeyBlocks.map ifExists

/-- The operators whose loop tests every key. The address family accepts a block for
one of its keys, the `IfExists` forms are about the block as a whole. -/
def TestsEveryKey : Condition → Prop
  | string _ _ => True
  | binaryEquals _ => True
  | address _ _ => False
  | bool _ _ => True
  | number operator _ => operator.ifExists = false
  | date _ _ => True
  | ifExists _ => False

theorem number_evaluate_all (op : Int → Int → Bool) (values : ConditionValues) (func : NumberFunc) :
    func.evaluate op false values =
      func.all fun inner => NumberFunc.evaluate op false values [inner] := by
  induction func with
  | nil => rfl
  | cons inner rest ih =>
    rw [all_cons, NumberFunc.evaluate, NumberFunc.evaluate]
    cases inner.first values with
    | none => rfl
    | some value =>
      dsimp only
      cases parseI64 value with
      | none => rfl
      | some rv =>
        dsimp only
        cases op rv inner.values with
        | false => rfl
        | true =>
          rw [if_pos rfl, if_pos rfl, ih]
          rfl

theorem evaluate_blocks {parsers : Parsers} {fuel : Nat} {quantifier : Quantifier}
    {resolver : Option Resolver} {condition : Condition} (tested : condition.TestsEveryKey) :
    condition.evaluateWithResolver parsers fuel quantifier values resolver =
      condition.oneKeyBlocks.allM
        (evaluateWithResolver parsers fuel quantifier values resolver) := by
  cases condition with
  | string operator func =>
    rw [oneKeyBlocks, all_m_map]
    exact congrArg (func.allM ·) (funext fun inner => (all_m_single _ inner).symm)
  | binaryEquals func =>
    rw [oneKeyBlocks, all_m_map]
    simp only [evaluateWithResolver, all_m_some, BinaryFunc.evaluate, all_cons, all_nil,
      Bool.and_true]
  | address operator func => exact tested.elim
  | bool operator func =>
    rw [oneKeyBlocks, all_m_map]
    cases operator with
    | null =>
      simp only [evaluateWithResolver, all_m_some, BoolFunc.evaluateNull, all_cons,
        all_nil, Bool.and_true]
    | bool =>
      simp only [evaluateWithResolver, all_m_some, BoolFunc.evaluateBool, all_cons,
        all_nil, Bool.and_true]
  | number operator func =>
    have always : operator.ifExists = false := tested
    rw [oneKeyBlocks, all_m_map]
    simp only [evaluateWithResolver, all_m_some, always]
    rw [number_evaluate_all]
  | date operator func =>
    rw [oneKeyBlocks, all_m_map]
    simp only [evaluateWithResolver, all_m_some, DateFunc.evaluate, all_cons, all_nil,
      Bool.and_true]
  | ifExists inner => exact tested.elim

/-- A block is the conjunction of its keys wherever every key is tested, and the
`IfExists` form of a condition holds when none of its keys is there and is the
condition itself when one of them is. -/
theorem block_is_conjunction (parsers : Parsers) (fuel : Nat) (values : ConditionValues)
    (resolver : Option Resolver) (condition : Condition) :
    (condition.TestsEveryKey →
      condition.evaluateWithResolver parsers fuel .none values resolver =
        condition.oneKeyBlocks.allM (evaluateWithResolver parsers fuel .none values resolver)) ∧
    ((∀ key ∈ condition.keyNames, values.lookup key = none) →
      (ifExists condition).evaluateWithResolver parsers fuel .none values resolver = some true) ∧
    ((∃ key ∈ condition.keyNames, (values.lookup key).isSome) →
      (ifExists condition).evaluateWithResolver parsers fuel .none values resolver =
        condition.evaluateWithResolver parsers fuel .none values resolver) := by
  refine ⟨evaluate_blocks, ?_, ?_⟩
  · intro absent
    have missing : condition.hasAnyKeyIn values = false := by
      unfold hasAnyKeyIn
      rw [any_eq_false]
      intro key member
      rw [absent key member]
      simp
    rw [evaluateWithResolver, if_neg (by simp [missing])]
  · intro present
    have found : condition.hasAnyKeyIn values = true := any_eq_true.2 present
    rw [evaluateWithResolver, if_pos found]

def stringParsers : Parsers := ⟨id, fun _ => none, fun _ => none, fun _ => none⟩

/-- A block with a key that the request has and one that it has not. -/
def twoKeys : Condition :=
  string .stringEquals
    [⟨⟨.aws .awsUsername, none⟩, [str "alice"]⟩, ⟨⟨.jwt .jwtSub, none⟩, [str "alice"]⟩]

theorem two_keys_are_conjunction :
    twoKeys.evaluateWithResolver stringParsers 0 .none [(str "username", [str "alice"])] none =
      twoKeys.oneKeyBlocks.allM
        (evaluateWithResolver stringParsers 0 .none [(str "username", [str "alice"])] none) :=
  (block_is_conjunction stringParsers 0 [(str "username", [str "alice"])] none twoKeys).1 trivial

theorem if_exists_is_not_per_key :
    ¬ ∀ (values : ConditionValues) (condition : Condition),
      condition.evaluateWithResolver stringParsers 0 .none values none =
        condition.oneKeyBlocks.allM (evaluateWithResolver stringParsers 0 .none values none) := by
  intro conjunction
  have same := conjunction [(str "username", [str "alice"])] (ifExists twoKeys)
  revert same
  decide

end Condition

end Rustfs.Policy

namespace Rustfs.Policy.Address

open List Policy.Path Library.Lists

def cidr (parseNetwork : Str → Option IpNetwork) (text : Str) : Option IpNetwork :=
  parseNetwork (if text.contains slash then text else text ++ str "/32")

def addrFuncValue (parseNetwork : Str → Option IpNetwork) (texts : List Str) :
    Option (List IpNetwork) :=
  texts.mapM (cidr parseNetwork)

def withPrefix32 : IpAddr → IpNetwork
  | .v4 bits => .v4 bits 32
  | .v6 bits => .v6 bits 32

/-- What the network parser makes of an address with the prefix length 32. -/
def ParsesCidr (parsers : Parsers) (parseNetwork : Str → Option IpNetwork) : Prop :=
  ∀ text, slash ∉ text →
    parseNetwork (text ++ str "/32") = (parsers.address text).map withPrefix32

/-- The addresses a text of the policy stands for. -/
def Denotes (parsers : Parsers) (parseNetwork : Str → Option IpNetwork) (text : Str)
    (address : IpAddr) : Prop :=
  if slash ∈ text then ∃ network, parseNetwork text = some network ∧ network.contains address
  else parsers.address text = some address

/-- An IPv6 address without a prefix length, and an address that shares its first 32
bits. -/
def SharesPrefix (parsers : Parsers) (text : Str) (address : IpAddr) : Prop :=
  slash ∉ text ∧ ∃ bits other, parsers.address text = some (.v6 bits) ∧ address = .v6 other ∧
    bits >>> 96 = other >>> 96

section Networks

variable {parsers : Parsers} {parseNetwork : Str → Option IpNetwork} {text : Str}
  {network : IpNetwork} {address : IpAddr}

theorem cidr_contains (parses : ParsesCidr parsers parseNetwork)
    (accepted : cidr parseNetwork text = some network) :
    network.contains address = true ↔
      Denotes parsers parseNetwork text address ∨ SharesPrefix parsers text address := by
  unfold cidr at accepted
  unfold Denotes SharesPrefix
  by_cases written : slash ∈ text
  · rw [if_pos (contains_iff_mem.2 written)] at accepted
    simp [written, accepted]
  · rw [if_neg (by simpa using written), parses text written] at accepted
    obtain ⟨single, parsed, rfl⟩ := Option.map_eq_some_iff.1 accepted
    simp only [parsed, Option.some.injEq, written, if_false, not_false_eq_true, true_and]
    cases single with
    | v4 bits =>
      cases address with
      | v4 other | v6 other => simp [withPrefix32, IpNetwork.contains]
    | v6 bits =>
      cases address with
      | v4 other => simp [withPrefix32, IpNetwork.contains]
      | v6 other =>
        simp only [withPrefix32, IpNetwork.contains, decide_eq_true_eq, IpAddr.v6.injEq]
        constructor
        · intro shared
          exact .inr ⟨bits, other, rfl, rfl, shared⟩
        · rintro (rfl | ⟨_, _, rfl, rfl, shared⟩)
          · rfl
          · exact shared

theorem value_contains {texts : List Str} {networks : List IpNetwork}
    (parses : ParsesCidr parsers parseNetwork)
    (accepted : addrFuncValue parseNetwork texts = some networks) :
    (networks.any fun network => network.contains address) = true ↔
      ∃ text ∈ texts, Denotes parsers parseNetwork text address ∨
        SharesPrefix parsers text address := by
  unfold addrFuncValue at accepted
  rw [map_m_eq_some] at accepted
  induction accepted with
  | nil => simp
  | @cons text network texts networks isNetwork _ ih =>
    rw [any_cons, Bool.or_eq_true, ih, cidr_contains parses isNetwork, exists_mem_cons_iff]

end Networks

section Answers

variable {parsers : Parsers} {networks : List IpNetwork} {requests : List Str}
  {addresses : List IpAddr}

theorem scan_valid (valid : requests.mapM parsers.address = some addresses) :
    AddrFunc.scan parsers networks requests =
      if addresses.any fun address => networks.any fun network => network.contains address then
        some true
      else none := by
  rw [map_m_eq_some] at valid
  induction valid with
  | nil => rfl
  | @cons request address requests addresses parsed _ ih =>
    unfold AddrFunc.scan
    rw [parsed]
    cases matched : networks.any fun network => network.contains address with
    | true => simp [matched]
    | false => simp [matched, ih]

theorem evaluate_valid {key : Key} (requested : (values.lookup key.mapKey).getD [] = requests)
    (valid : requests.mapM parsers.address = some addresses) :
    AddrFunc.evaluate parsers values [⟨key, networks⟩] =
      addresses.any fun address => networks.any fun network => network.contains address := by
  unfold AddrFunc.evaluate
  rw [requested, scan_valid valid]
  cases addresses.any fun address => networks.any fun network => network.contains address with
  | true => rfl
  | false => rfl

end Answers

theorem excess_is_harmless (meant excess : Prop) :
    ((meant ∨ excess ↔ meant) ∧ (¬ (meant ∨ excess) ↔ ¬ meant)) ↔ meant ∨ ¬ excess := by
  by_cases held : meant
  all_goals simp [held]

/-- The two conditions mean what the texts say exactly when some request address is in
a listed network, or none shares the first 32 bits of a listed IPv6 address without a
prefix length. -/
theorem ip_conditions_iff (parsers : Parsers) (parseNetwork : Str → Option IpNetwork)
    (parses : ParsesCidr parsers parseNetwork) (key : Key) (texts : List Str)
    (networks : List IpNetwork) (accepted : addrFuncValue parseNetwork texts = some networks)
    (values : ConditionValues) (addresses : List IpAddr)
    (valid : ((values.lookup key.mapKey).getD []).mapM parsers.address = some addresses)
    (fuel : Nat) (quantifier : Quantifier) (resolver : Option Resolver) :
    (((Condition.address .ipAddress [⟨key, networks⟩]).evaluateWithResolver parsers fuel quantifier
          values resolver = some true ↔
        ∃ address ∈ addresses, ∃ text ∈ texts, Denotes parsers parseNetwork text address) ∧
      ((Condition.address .notIpAddress [⟨key, networks⟩]).evaluateWithResolver parsers fuel
          quantifier values resolver = some true ↔
        ¬ ∃ address ∈ addresses, ∃ text ∈ texts, Denotes parsers parseNetwork text address)) ↔
    ((∃ address ∈ addresses, ∃ text ∈ texts, Denotes parsers parseNetwork text address) ∨
      ¬ ∃ address ∈ addresses, ∃ text ∈ texts, SharesPrefix parsers text address) := by
  have answer : AddrFunc.evaluate parsers values [⟨key, networks⟩] = true ↔
      (∃ address ∈ addresses, ∃ text ∈ texts, Denotes parsers parseNetwork text address) ∨
        ∃ address ∈ addresses, ∃ text ∈ texts, SharesPrefix parsers text address := by
    rw [evaluate_valid rfl valid, any_eq_true]
    simp only [value_contains parses accepted, and_or_left, exists_or]
  have positive : (Condition.address .ipAddress [⟨key, networks⟩]).evaluateWithResolver parsers fuel
      quantifier values resolver = some (AddrFunc.evaluate parsers values [⟨key, networks⟩]) :=
    congrArg some (Bool.false_xor _)
  have negative : (Condition.address .notIpAddress [⟨key, networks⟩]).evaluateWithResolver parsers
      fuel quantifier values resolver =
        some (!AddrFunc.evaluate parsers values [⟨key, networks⟩]) :=
    congrArg some (Bool.true_xor _)
  rw [positive, negative, Option.some.injEq, Option.some.injEq, Bool.not_eq_true', ← Bool.not_eq_true,
    answer]
  exact excess_is_harmless _ _

/-- Two addresses of one documentation network. -/
def sampleParsers : Parsers where
  toLowercase := id
  base64 := fun _ => none
  rfc3339 := fun _ => none
  address := fun text =>
    if text = str "2001:db8::1" then some (.v6 0x20010db8000000000000000000000001)
    else if text = str "2001:db8::2" then some (.v6 0x20010db8000000000000000000000002)
    else none

/-- The networks of these addresses with the prefix length 32. -/
def sampleNetwork (text : Str) : Option IpNetwork :=
  if text.drop (text.length - 3) = str "/32" then
    (sampleParsers.address (text.take (text.length - 3))).map withPrefix32
  else none

theorem sample_parses_cidr : ParsesCidr sampleParsers sampleNetwork := by
  intro text _
  have long : (text ++ str "/32").length - 3 = text.length := by
    rw [length_append]
    exact Nat.add_sub_cancel _ _
  unfold sampleNetwork
  rw [long, drop_left, if_pos rfl, take_left]

def sourceIp : Key := ⟨.aws .awsSourceIP, none⟩

theorem listed_address_is_matched :
    (((Condition.address .ipAddress
          [⟨sourceIp, [.v6 0x20010db8000000000000000000000001 32]⟩]).evaluateWithResolver
          sampleParsers 0 .none [(str "SourceIp", [str "2001:db8::1"])] none = some true ↔
        ∃ address ∈ [IpAddr.v6 0x20010db8000000000000000000000001], ∃ text ∈ [str "2001:db8::1"],
          Denotes sampleParsers sampleNetwork text address) ∧
      ((Condition.address .notIpAddress
          [⟨sourceIp, [.v6 0x20010db8000000000000000000000001 32]⟩]).evaluateWithResolver
          sampleParsers 0 .none [(str "SourceIp", [str "2001:db8::1"])] none = some true ↔
        ¬ ∃ address ∈ [IpAddr.v6 0x20010db8000000000000000000000001], ∃ text ∈ [str "2001:db8::1"],
          Denotes sampleParsers sampleNetwork text address)) := by
  refine (ip_conditions_iff sampleParsers sampleNetwork sample_parses_cidr sourceIp
    [str "2001:db8::1"] [.v6 0x20010db8000000000000000000000001 32] (by decide)
    [(str "SourceIp", [str "2001:db8::1"])] [.v6 0x20010db8000000000000000000000001]
    (by decide) 0 .none none).2 (.inl ?_)
  refine ⟨_, mem_cons_self, _, mem_cons_self, ?_⟩
  unfold Denotes
  decide

/-- A policy that lists one IPv6 address accepts its neighbour. -/
theorem neighbour_is_matched :
    addrFuncValue sampleNetwork [str "2001:db8::1"] =
        some [.v6 0x20010db8000000000000000000000001 32] ∧
      (Condition.address .ipAddress
          [⟨sourceIp, [.v6 0x20010db8000000000000000000000001 32]⟩]).evaluateWithResolver
          sampleParsers 0 .none [(str "SourceIp", [str "2001:db8::2"])] none = some true ∧
      sampleParsers.address (str "2001:db8::2") =
        some (.v6 0x20010db8000000000000000000000002) ∧
      ¬ Denotes sampleParsers sampleNetwork (str "2001:db8::1")
          (.v6 0x20010db8000000000000000000000002) := by
  refine ⟨by decide, by decide, by decide, ?_⟩
  unfold Denotes
  decide

end Rustfs.Policy.Address

namespace Rustfs.Policy

open List Variables Wildcard

namespace StringFunc

/-- What a quantifier makes of the test of a value. Without one the sign is of the
aggregate, with one it is of the test. -/
def quantified (quantifier : Quantifier) (negate : Bool) (holds : Str → Bool)
    (requested : List Str) : Bool :=
  match quantifier with
  | .none => requested.any holds ^^ negate
  | .forAllValues => requested.all fun value => holds value ^^ negate
  | .forAnyValue => requested.any fun value => holds value ^^ negate

/-- The test of a value by the policy values of a pair. -/
def accepts (parsers : Parsers) (ignoreCase like : Bool) (found : List Str) (value : Str) : Bool :=
  if like then found.any fun pattern => isMatch pattern value
  else (found.map (fold parsers ignoreCase)).contains (fold parsers ignoreCase value)

theorem all_negated (holds : Str → Bool) (requested : List Str) :
    quantified .forAllValues true holds requested = !quantified .forAnyValue false holds requested := by
  simp only [quantified, Bool.xor_true, Bool.xor_false, not_any_eq_all_not]

theorem any_negated (holds : Str → Bool) (requested : List Str) :
    quantified .forAnyValue true holds requested = !quantified .forAllValues false holds requested := by
  simp only [quantified, Bool.xor_true, Bool.xor_false, not_all_eq_any_not]

section Families

variable {parsers : Parsers} {fuel : Nat} {values : ConditionValues}

theorem patterns_unresolved (inner : FuncKeyValue (List Str)) :
    patterns fuel values none inner = some (inner.values.map (replaceFirstKey values)) := by
  unfold patterns
  induction inner.values with
  | nil => rfl
  | cons text texts ih =>
    obtain ⟨resolved, isResolved, same⟩ := Option.map_eq_some_iff.1 ih
    rw [mapM_cons, isResolved]
    change some (([text] :: resolved).flatten.map (replaceFirstKey values)) = _
    rw [flatten_cons, map_append, same]
    rfl

theorem like_loop_eq (quantifier : Quantifier) (ignoreCase negate : Bool)
    (found requested : List Str) (signed : quantifier = .none → negate = false) :
    likeLoop quantifier negate (some found) requested =
      some (quantified quantifier negate (accepts parsers ignoreCase true found) requested) := by
  induction requested with
  | nil =>
    cases quantifier with
    | none =>
      rw [signed rfl]
      rfl
    | forAnyValue => rfl
    | forAllValues => rfl
  | cons value requested ih =>
    have matched : (found.any fun pattern => isMatch pattern value) =
      accepts parsers ignoreCase true found value := rfl
    unfold likeLoop
    dsimp only
    rw [matched, ih]
    cases quantifier with
    | none =>
      rw [signed rfl]
      cases test : accepts parsers ignoreCase true found value with
      | true | false => simp [quantified, test]
    | forAnyValue | forAllValues =>
      cases test : accepts parsers ignoreCase true found value ^^ negate with
      | true | false => simp [quantified, test]

theorem eval_eq (quantifier : Quantifier) (ignoreCase negate : Bool)
    (inner : FuncKeyValue (List Str)) (signed : quantifier = .none → negate = false) :
    eval parsers fuel quantifier ignoreCase negate values none inner =
      some (quantified quantifier negate
        (accepts parsers ignoreCase false (inner.values.map (replaceFirstKey values)))
        ((values.lookup inner.key.mapKey).getD [])) := by
  unfold eval
  rw [patterns_unresolved, Option.map_some]
  cases quantifier with
  | none =>
    rw [signed rfl]
    simp only [quantified, any_map, Bool.xor_false]
    rfl
  | forAnyValue =>
    simp only [quantified, any_map]
    rfl
  | forAllValues =>
    simp only [quantified, all_map]
    rfl

theorem eval_like_eq (quantifier : Quantifier) (ignoreCase negate : Bool)
    (inner : FuncKeyValue (List Str)) (signed : quantifier = .none → negate = false) :
    evalLike fuel quantifier negate values none inner =
      some (quantified quantifier negate
        (accepts parsers ignoreCase true (inner.values.map (replaceFirstKey values)))
        ((values.lookup inner.key.mapKey).getD [])) := by
  unfold evalLike
  rw [patterns_unresolved]
  cases values.lookup inner.key.mapKey with
  | some requested => exact like_loop_eq quantifier ignoreCase negate _ requested signed
  | none => exact like_loop_eq quantifier ignoreCase negate _ [] signed

theorem evaluate_key_eq (quantifier : Quantifier) (ignoreCase like negate : Bool)
    (inner : FuncKeyValue (List Str)) :
    evaluateKey parsers fuel quantifier ignoreCase like negate values none inner =
      some (quantified quantifier negate
        (accepts parsers ignoreCase like (inner.values.map (replaceFirstKey values)))
        ((values.lookup inner.key.mapKey).getD [])) := by
  have family : ∀ sign, (quantifier = .none → sign = false) →
      (if like then evalLike fuel quantifier sign values none inner
        else eval parsers fuel quantifier ignoreCase sign values none inner) =
      some (quantified quantifier sign
        (accepts parsers ignoreCase like (inner.values.map (replaceFirstKey values)))
        ((values.lookup inner.key.mapKey).getD [])) := by
    intro sign signed
    cases like with
    | true => exact eval_like_eq quantifier ignoreCase sign inner signed
    | false => exact eval_eq quantifier ignoreCase sign inner signed
  unfold evaluateKey
  cases quantifier with
  | none =>
    rw [family false fun _ => rfl]
    simp [quantified]
  | forAnyValue | forAllValues => exact family negate (fun isNone => by cases isNone)

end Families

theorem accepts_plain {parsers : Parsers} {found : List Str} (plain : ∀ text ∈ found, Plain text)
    (value : Str) :
    accepts parsers false true found value = accepts parsers false false found value := by
  have unfolded : fold parsers false = id := rfl
  unfold accepts
  rw [if_pos rfl, if_neg Bool.false_ne_true, unfolded, map_id, Bool.eq_iff_iff, any_eq_true,
    contains_iff_mem]
  constructor
  · rintro ⟨text, member, matched⟩
    rw [is_match_iff, covers_plain (plain text member)] at matched
    rw [matched]
    exact member
  · intro member
    refine ⟨value, member, ?_⟩
    rw [is_match_iff, covers_plain (plain value member)]

end StringFunc

def NoCommonKeys (values : ConditionValues) : Prop :=
  ∀ key ∈ KeyName.commonKeys, values.lookup key.name = none

theorem replace_first_key_absent (absent : NoCommonKeys values)
    (text : Str) : replaceFirstKey values text = text := by
  have noValue : ∀ key ∈ KeyName.commonKeys, ¬ (firstValue values key).isSome = true := by
    intro key common
    unfold firstValue
    rw [absent key common]
    simp
  unfold replaceFirstKey
  rw [find?_eq_none.2 noValue]

namespace StringOperator

/-- Two operators with the same test and the other sign. -/
def Opposite (plain negated : StringOperator) : Prop :=
  plain.ignoreCase = negated.ignoreCase ∧ plain.like = negated.like ∧
    plain.negate = false ∧ negated.negate = true

instance (plain negated : StringOperator) : Decidable (Opposite plain negated) := by
  unfold Opposite
  infer_instance

/-- The condition of an operator on one key, decided without a resolver. -/
def judge (parsers : Parsers) (fuel : Nat) (values : ConditionValues) (key : Key)
    (policyValues : List Str) (quantifier : Quantifier) (operator : StringOperator) : Option Bool :=
  (Condition.string operator [⟨key, policyValues⟩]).evaluateWithResolver parsers fuel quantifier
    values none

theorem judge_eq (parsers : Parsers) (fuel : Nat) (values : ConditionValues) (key : Key)
    (policyValues : List Str) (quantifier : Quantifier) (operator : StringOperator) :
    judge parsers fuel values key policyValues quantifier operator =
      some (StringFunc.quantified quantifier operator.negate
        (StringFunc.accepts parsers operator.ignoreCase operator.like
          (policyValues.map (replaceFirstKey values)))
        ((values.lookup key.mapKey).getD [])) := by
  have single : judge parsers fuel values key policyValues quantifier operator =
      StringFunc.evaluateKey parsers fuel quantifier operator.ignoreCase operator.like
        operator.negate values none ⟨key, policyValues⟩ := by
    exact Rustfs.Library.ShortCircuit.all_m_single _ _
  rw [single, StringFunc.evaluate_key_eq]

end StringOperator

open StringOperator in
/-- The quantifiers are dual, and without wildcards the two families agree. Keys whose
variables could be replaced in the values of the policy are assumed absent. -/
theorem string_quantifiers_dual (parsers : Parsers) (fuel : Nat) (values : ConditionValues)
    (key : Key) (policyValues : List Str) (absent : NoCommonKeys values) :
    (∀ plain negated, Opposite plain negated →
      judge parsers fuel values key policyValues .forAllValues negated =
          (judge parsers fuel values key policyValues .forAnyValue plain).map (!·) ∧
        judge parsers fuel values key policyValues .forAnyValue negated =
          (judge parsers fuel values key policyValues .forAllValues plain).map (!·) ∧
        (judge parsers fuel values key policyValues .forAnyValue plain).isSome ∧
        (judge parsers fuel values key policyValues .forAllValues plain).isSome) ∧
      ((∀ text ∈ policyValues, Plain text) → ∀ quantifier,
        judge parsers fuel values key policyValues quantifier .stringLike =
            judge parsers fuel values key policyValues quantifier .stringEquals ∧
          judge parsers fuel values key policyValues quantifier .stringNotLike =
            judge parsers fuel values key policyValues quantifier .stringNotEquals) := by
  constructor
  · rintro plain negated ⟨sameCase, sameFamily, positive, negative⟩
    simp only [judge_eq, positive, negative, sameCase, sameFamily, Option.map_some]
    rw [StringFunc.all_negated, StringFunc.any_negated]
    exact ⟨rfl, rfl, rfl, rfl⟩
  · intro plain quantifier
    have unreplaced : policyValues.map (replaceFirstKey values) = policyValues := by
      rw [map_congr_left fun text _ => replace_first_key_absent absent text, map_id']
    have sameTest : StringFunc.accepts parsers false true policyValues =
        StringFunc.accepts parsers false false policyValues := by
      funext value
      exact StringFunc.accepts_plain plain value
    simp only [judge_eq, unreplaced]
    constructor
    · exact congrArg (fun holds => some (StringFunc.quantified quantifier false holds _)) sameTest
    · exact congrArg (fun holds => some (StringFunc.quantified quantifier true holds _)) sameTest

/-- A request for two prefixes, one of which the policy names. -/
def prefixRequest : ConditionValues := [(KeyName.name (.s3 .s3Prefix), [str "a", str "b"])]

def prefixKey : Key := ⟨.s3 .s3Prefix, none⟩

open StringOperator in
theorem prefix_request_dual :
    NoCommonKeys prefixRequest ∧
      judge Condition.stringParsers 0 prefixRequest prefixKey [str "a"] .forAnyValue .stringEquals = some true ∧
      judge Condition.stringParsers 0 prefixRequest prefixKey [str "a"] .forAllValues .stringNotEquals =
        (judge Condition.stringParsers 0 prefixRequest prefixKey [str "a"] .forAnyValue .stringEquals).map (!·) ∧
      judge Condition.stringParsers 0 prefixRequest prefixKey [str "a"] .forAllValues .stringLike =
        judge Condition.stringParsers 0 prefixRequest prefixKey [str "a"] .forAllValues .stringEquals := by
  have absent : NoCommonKeys prefixRequest := by
    unfold NoCommonKeys
    decide +kernel
  have plain : ∀ text ∈ [str "a"], Plain text := by
    unfold Plain
    decide +kernel
  obtain ⟨dual, alike⟩ := string_quantifiers_dual Condition.stringParsers 0 prefixRequest prefixKey [str "a"] absent
  exact ⟨absent, by decide +kernel, (dual .stringEquals .stringNotEquals (by decide)).1,
    (alike plain .forAllValues).1⟩

end Rustfs.Policy
