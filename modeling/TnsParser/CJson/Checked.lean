import TnsParser.CJson.Accepts
import TnsParser.CJson.StringBuffer
import TnsParser.Library.Fallible

-- The parser of cJSON, where what C leaves undefined ends it. In `CJson.Parse` a string has no bound, and
-- a variable that is not set has some value.

open Except

inductive Undefined
  | pastBlock
  | unset
  | overrun
  | overflow
  deriving DecidableEq

-- `sscanf(p, "%4x", &uc)`, and a use of `uc` behind it.
def scan4x (p : Bytes) : Except Undefined UInt32 :=
  match sscanf4x p with
  | some uc => .ok uc
  | none    => .error .unset

section

-- How many null bytes there are behind the text, up to the end of the block that it is in.
variable (nulls : Nat)

-- A read of `ptr[i]`.
def inBlock (ptr : Bytes) (i : Nat) : Except Undefined Unit :=
  if i < ptr.length + nulls then .ok () else .error .pastBlock

-- Behind the first digits the byte at the end is read in any case.
def parseUtf16Checked (ptr : Bytes) : Except Undefined (Bytes × Bytes) := do
  let uc ← scan4x (ptr.drop 1)
  inBlock nulls ptr 5
  let ptr := ptr.drop 4
  if 0xdc00 ≤ uc ∧ uc ≤ 0xdfff ∨ uc = 0 then return ([], ptr)
  else if 0xd800 ≤ uc ∧ uc ≤ 0xdbff then
    if ptr.getD 1 0 ≠ cchar '\\' ∨ ptr.getD 2 0 ≠ cchar 'u' then return ([], ptr)
    else
      let uc2 ← scan4x (ptr.drop 3)
      inBlock nulls ptr 7
      let ptr := ptr.drop 6
      if uc2 < 0xdc00 ∨ uc2 > 0xdfff then return ([], ptr)
      else return (utf8 ((0x10000 : UInt32) + ((uc &&& 0x3ff) <<< 10 ||| uc2 &&& 0x3ff)), ptr)
  else return (utf8 uc, ptr)

def parseEscapeChecked (ptr : Bytes) : Except Undefined (Bytes × Bytes) := do
  let c := ptr.headD 0
  if c = cchar 'u' then parseUtf16Checked nulls ptr
  else
    inBlock nulls ptr 1
    return parseEscape (fun _ => 0) ptr

-- The loop that counts, which reads the byte behind an escaped one.
def parseStringLenChecked : Nat → Bytes → Nat → Except Undefined Nat
  | 0,     _,   len => .ok len
  | n + 1, ptr, len =>
    let c := ptr.headD 0
    if c = cchar '"' ∨ c = 0 then .ok len
    else if intMax ≤ len + 1 then .error .overflow
    else if c = cchar '\\' then do
      inBlock nulls ptr 2
      parseStringLenChecked n (ptr.drop 2) (len + 1)
    else parseStringLenChecked n (ptr.drop 1) (len + 1)

-- `piece` behind `out`, in a block for `len` bytes and the terminator.
def store (len : Nat) (out piece : Bytes) : Except Undefined Bytes :=
  if len < (out ++ piece).length then .error .overrun else .ok (out ++ piece)

def parseStringLoopChecked (len : Nat) : Nat → Bytes → Bytes → Except Undefined (Bytes × Bytes)
  | 0,     ptr, out => .ok (out, ptr)
  | n + 1, ptr, out =>
    let c := ptr.headD 0
    if c = cchar '"' ∨ c = 0 then .ok (out, ptr)
    else if c ≠ cchar '\\' then do
      let out ← store len out [c]
      parseStringLoopChecked len n (ptr.drop 1) out
    else do
      let (piece, ptr) ← parseEscapeChecked nulls (ptr.drop 1)
      let out ← store len out piece
      parseStringLoopChecked len n (ptr.drop 1) out

def parseStringChecked (str : Bytes) : Except Undefined (Option (Bytes × Bytes)) :=
  if str.headD 0 ≠ cchar '"' then .ok none
  else do
    let len ← parseStringLenChecked nulls str.length (str.drop 1) 0
    let (out, ptr) ← parseStringLoopChecked nulls len str.length (str.drop 1) []
    return some (out.takeWhile (· ≠ 0), if ptr.headD 0 = cchar '"' then ptr.drop 1 else ptr)

mutual

def parseValueChecked : Nat → Bytes → Except Undefined (Option (CJson × Bytes))
  | 0,     _     => .ok none
  | n + 1, value =>
    if cstr "null" <+: value then .ok (some (⟨cJSONNull, [], none, []⟩, value.drop 4))
    else if cstr "false" <+: value then .ok (some (⟨cJSONFalse, [], none, []⟩, value.drop 5))
    else if cstr "true" <+: value then .ok (some (⟨cJSONTrue, [], none, []⟩, value.drop 4))
    else if value.headD 0 = cchar '"' then do
      let s ← parseStringChecked nulls value
      return s.map fun (s, value) => (⟨cJSONString, s, none, []⟩, value)
    else if value.headD 0 = cchar '-' ∨ isDigit (value.headD 0) then
      .ok (some (⟨cJSONNumber, [], none, []⟩, parseNumber value))
    else if value.headD 0 = cchar '[' then
      let value := skip (value.drop 1)
      if value.headD 0 = cchar ']' then .ok (some (⟨cJSONArray, [], none, []⟩, value.drop 1))
      else do
        let items ← parseArrayChecked n value
        return items.map fun (child, value) => (⟨cJSONArray, [], none, child⟩, value)
    else if value.headD 0 = cchar '\x7b' then
      let value := skip (value.drop 1)
      if value.headD 0 = cchar '\x7d' then .ok (some (⟨cJSONObject, [], none, []⟩, value.drop 1))
      else do
        let items ← parseObjectChecked n value
        return items.map fun (child, value) => (⟨cJSONObject, [], none, child⟩, value)
    else .ok none

def parseArrayChecked : Nat → Bytes → Except Undefined (Option (List CJson × Bytes))
  | 0,     _     => .ok none
  | n + 1, value => do
    match ← parseValueChecked n (skip value) with
    | none                => return none
    | some (child, value) =>
      let value := skip value
      if value.headD 0 = cchar ',' then
        let children ← parseArrayChecked n (value.drop 1)
        return children.map fun (children, value) => (child :: children, value)
      else if value.headD 0 = cchar ']' then return some ([child], value.drop 1)
      else return none

def parseObjectChecked : Nat → Bytes → Except Undefined (Option (List CJson × Bytes))
  | 0,     _     => .ok none
  | n + 1, value => do
    match ← parseStringChecked nulls (skip value) with
    | none               => return none
    | some (name, value) =>
      let value := skip value
      if value.headD 0 ≠ cchar ':' then return none
      else
        match ← parseValueChecked n (skip (value.drop 1)) with
        | none                => return none
        | some (child, value) =>
          let child := { child with string := some name }
          let value := skip value
          if value.headD 0 = cchar ',' then
            let children ← parseObjectChecked n (value.drop 1)
            return children.map fun (children, value) => (child :: children, value)
          else if value.headD 0 = cchar '\x7d' then return some ([child], value.drop 1)
          else return none

end

def cJSONParseWithOptsChecked (value : Bytes) (requireNullTerminated : Bool) :
    Except Undefined (Option (CJson × Bytes)) := do
  match ← parseValueChecked nulls (2 * value.length + 1) (skip value) with
  | none           => return none
  | some (c, end') =>
    if requireNullTerminated then
      let end' := skip end'
      if end'.headD 0 ≠ 0 then return none else return some (c, end')
    else return some (c, end')

def cJSONParseChecked (value : Bytes) : Except Undefined (Option CJson) := do
  let c ← cJSONParseWithOptsChecked nulls value false
  return c.map (·.1)

end

-- Where it returns, the parser gives what the one of `CJson.Parse` gives, whatever `stale` is.

variable {nulls n len : Nat} {ptr out value : Bytes} {stale : Bytes → UInt32}

theorem scan4x_ensures : Ensures (· = (sscanf4x ptr).getD (stale ptr)) (scan4x ptr) := by
  rw [scan4x]
  cases sscanf4x ptr
  case none    => nofun
  case some uc => exact ensures_ok rfl

theorem parseUtf16Checked_ensures :
    Ensures (· = parseUtf16 stale ptr) (parseUtf16Checked nulls ptr) := by
  rw [parseUtf16Checked, parseUtf16]
  refine ensures_bind fun uc huc => ensures_bind fun _ _ => ?_
  rw [← scan4x_ensures uc huc]
  refine ensures_ite (fun h => ensures_pure (if_pos h).symm) fun h => ?_
  rw [if_neg h]
  refine ensures_ite (fun h => ?_) fun h => ensures_pure (if_neg h).symm
  rw [if_pos h]
  refine ensures_ite (fun h => ensures_pure (if_pos h).symm) fun h => ?_
  rw [if_neg h]
  refine ensures_bind fun uc2 huc2 => ensures_bind fun _ _ => ?_
  rw [← scan4x_ensures uc2 huc2]
  exact ensures_ite (fun h => ensures_pure (if_pos h).symm) fun h => ensures_pure (if_neg h).symm

theorem parseEscapeChecked_ensures :
    Ensures (· = parseEscape stale ptr) (parseEscapeChecked nulls ptr) := by
  rw [parseEscapeChecked]
  refine ensures_ite (fun h => ?_) fun h => ensures_bind fun _ _ => ensures_pure ?_
  · have hu : parseEscape stale ptr = parseUtf16 stale ptr := by
      rw [parseEscape, h]
      rfl
    exact hu ▸ parseUtf16Checked_ensures
  · simp only [parseEscape, h, if_false]

theorem store_ensures {piece : Bytes} : Ensures (· = out ++ piece) (store len out piece) :=
  ensures_ite (fun _ => nofun) fun _ => ensures_ok rfl

theorem parseStringLoopChecked_ensures :
    Ensures (· = parseStringLoop stale n ptr out) (parseStringLoopChecked nulls len n ptr out) := by
  induction n generalizing ptr out
  case zero => exact ensures_ok rfl
  case succ n hi =>
    rw [parseStringLoopChecked, parseStringLoop]
    refine ensures_ite (fun h => ensures_ok (if_pos h).symm) fun h => if_neg h ▸ ?_
    refine ensures_ite (fun h => if_pos h ▸ ?_) fun h => if_neg h ▸ ?_
    · exact ensures_bind fun out' hout => store_ensures out' hout ▸ hi
    · refine ensures_bind fun r hr => ensures_bind fun out' hout => ?_
      rw [store_ensures out' hout, ← parseEscapeChecked_ensures r hr]
      exact hi

theorem parseStringChecked_ensures :
    Ensures (· = parseString stale ptr) (parseStringChecked nulls ptr) := by
  rw [parseStringChecked, parseString]
  refine ensures_ite (fun h => ensures_ok (if_pos h).symm) fun h => ?_
  rw [if_neg h]
  refine ensures_bind fun len _ => ensures_bind fun r hr => ensures_pure ?_
  rw [← parseStringLoopChecked_ensures r hr]

-- What the functions do at the depth `n`.
structure ParsesAlike (nulls : Nat) (stale : Bytes → UInt32) (n : Nat) : Prop where
  value  : ∀ p, Ensures (· = parseValue stale n p) (parseValueChecked nulls n p)
  array  : ∀ p, Ensures (· = parseArray stale n p) (parseArrayChecked nulls n p)
  object : ∀ p, Ensures (· = parseObject stale n p) (parseObjectChecked nulls n p)

theorem parseValueChecked_succ (h : ParsesAlike nulls stale n) :
    Ensures (· = parseValue stale (n + 1) ptr) (parseValueChecked nulls (n + 1) ptr) := by
  rw [parseValueChecked, parseValue]
  refine ensures_ite (fun h => ensures_ok (if_pos h).symm) fun hc => if_neg hc ▸ ?_
  refine ensures_ite (fun h => ensures_ok (if_pos h).symm) fun hc => if_neg hc ▸ ?_
  refine ensures_ite (fun h => ensures_ok (if_pos h).symm) fun hc => if_neg hc ▸ ?_
  refine ensures_ite (fun hc => if_pos hc ▸ ?_) fun hc => if_neg hc ▸ ?_
  · exact ensures_bind fun s hs => ensures_pure (parseStringChecked_ensures s hs ▸ rfl)
  refine ensures_ite (fun h => ensures_ok (if_pos h).symm) fun hc => if_neg hc ▸ ?_
  refine ensures_ite (fun hc => if_pos hc ▸ ?_) fun hc => if_neg hc ▸ ?_
  · refine ensures_ite (fun h => ensures_ok (if_pos h).symm) fun hc => if_neg hc ▸ ?_
    exact ensures_bind fun items hitems => ensures_pure (h.array _ items hitems ▸ rfl)
  refine ensures_ite (fun hc => if_pos hc ▸ ?_) fun hc => ensures_ok (if_neg hc).symm
  refine ensures_ite (fun h => ensures_ok (if_pos h).symm) fun hc => if_neg hc ▸ ?_
  exact ensures_bind fun items hitems => ensures_pure (h.object _ items hitems ▸ rfl)

theorem parseArrayChecked_succ (h : ParsesAlike nulls stale n) :
    Ensures (· = parseArray stale (n + 1) ptr) (parseArrayChecked nulls (n + 1) ptr) := by
  rw [parseArrayChecked, parseArray]
  refine ensures_bind fun r hr => ?_
  rw [← h.value _ r hr]
  cases r
  case none => exact ensures_pure rfl
  case some r =>
    simp only [Option.bind_eq_bind, Option.bind_some]
    refine ensures_ite (fun hc => if_pos hc ▸ ?_) fun hc => if_neg hc ▸ ?_
    · refine ensures_bind fun items hitems => ensures_pure ?_
      rw [← h.array _ items hitems]
      exact Option.map_eq_bind
    · exact ensures_ite (fun h => ensures_pure (if_pos h).symm) fun h => ensures_pure (if_neg h).symm

theorem parseObjectChecked_succ (h : ParsesAlike nulls stale n) :
    Ensures (· = parseObject stale (n + 1) ptr) (parseObjectChecked nulls (n + 1) ptr) := by
  rw [parseObjectChecked, parseObject]
  refine ensures_bind fun r hr => ?_
  rw [← parseStringChecked_ensures r hr]
  cases r
  case none => exact ensures_pure rfl
  case some r =>
    simp only [Option.bind_eq_bind, Option.bind_some]
    refine ensures_ite (fun h => ensures_pure (if_pos h).symm) fun hc => if_neg hc ▸ ?_
    refine ensures_bind fun child hchild => ?_
    rw [← h.value _ child hchild]
    cases child
    case none => exact ensures_pure rfl
    case some child =>
      simp only [Option.bind_some]
      refine ensures_ite (fun hc => if_pos hc ▸ ?_) fun hc => if_neg hc ▸ ?_
      · refine ensures_bind fun items hitems => ensures_pure ?_
        rw [← h.object _ items hitems]
        exact Option.map_eq_bind
      · exact ensures_ite (fun h => ensures_pure (if_pos h).symm) fun h => ensures_pure (if_neg h).symm

theorem parsesAlike (nulls : Nat) (stale : Bytes → UInt32) (n : Nat) : ParsesAlike nulls stale n := by
  induction n
  case zero         => exact ⟨fun _ => ensures_ok rfl, fun _ => ensures_ok rfl, fun _ => ensures_ok rfl⟩
  case succ n hi    =>
    exact ⟨fun _ => parseValueChecked_succ hi, fun _ => parseArrayChecked_succ hi,
      fun _ => parseObjectChecked_succ hi⟩

theorem cJSONParseWithOptsChecked_ensures (nulls : Nat) (stale : Bytes → UInt32) (value : Bytes)
    (requireNullTerminated : Bool) :
    Ensures (· = cJSONParseWithOpts stale value requireNullTerminated)
      (cJSONParseWithOptsChecked nulls value requireNullTerminated) := by
  rw [cJSONParseWithOptsChecked, cJSONParseWithOpts]
  refine ensures_bind fun r hr => ?_
  rw [← (parsesAlike nulls stale _).value _ r hr]
  cases r
  case none => exact ensures_pure rfl
  case some r =>
    simp only [Option.bind_eq_bind, Option.bind_some]
    refine ensures_ite (fun hc => if_pos hc ▸ ?_) fun hc => ensures_pure (if_neg hc).symm
    exact ensures_ite (fun h => ensures_pure (if_pos h).symm) fun h => ensures_pure (if_neg h).symm

theorem cJSONParseChecked_ensures (nulls : Nat) (stale : Bytes → UInt32) (value : Bytes) :
    Ensures (· = cJSONParse stale value) (cJSONParseChecked nulls value) := by
  refine ensures_bind fun r hr => ensures_pure ?_
  rw [cJSONParse_eq, ← cJSONParseWithOptsChecked_ensures nulls stale value false r hr]
