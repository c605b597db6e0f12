import TnsParser.CJson

-- The parser of cJSON. A pointer is the text from there on, and what is behind the text reads as a null
-- byte. A null pointer that a function returns is `none`.

def cJSONFalse : Nat := 0

def cJSONTrue : Nat := 1

def cJSONNull : Nat := 2

def cJSONNumber : Nat := 3

def cJSONArray : Nat := 5

def cJSONObject : Nat := 6

def skip (value : Bytes) : Bytes :=
  value.dropWhile fun c => c ≠ 0 ∧ c ≤ 32

def isDigit (c : UInt8) : Bool :=
  cchar '0' ≤ c ∧ c ≤ cchar '9'

-- What is behind the number. The number itself is not used.
def parseNumber (num : Bytes) : Bytes :=
  let num := if num.headD 0 = cchar '-' then num.drop 1 else num
  let num := if num.headD 0 = cchar '0' then num.drop 1 else num
  let num := if isDigit (num.headD 0) ∧ num.headD 0 ≠ cchar '0' then num.dropWhile isDigit else num
  let num :=
    if num.headD 0 = cchar '.' ∧ isDigit (num.getD 1 0) then (num.drop 1).dropWhile isDigit else num
  if num.headD 0 = cchar 'e' ∨ num.headD 0 = cchar 'E' then
    let num := num.drop 1
    let num := if num.headD 0 = cchar '+' ∨ num.headD 0 = cchar '-' then num.drop 1 else num
    num.dropWhile isDigit
  else
    num

def hexDigit? (c : UInt8) : Option UInt32 :=
  if isDigit c then some (c - cchar '0').toUInt32
  else if cchar 'a' ≤ tolower c ∧ tolower c ≤ cchar 'f' then some (tolower c - cchar 'a' + 10).toUInt32
  else none

-- `sscanf(p, "%4x", &uc)`, which sets nothing if there is no number. There may be white space, a sign
-- and a prefix before the digits.
def sscanf4x (p : Bytes) : Option UInt32 :=
  let item := p.dropWhile (fun c => c = 32 ∨ 9 ≤ c ∧ c ≤ 13) |>.take 4
  let minus := item.headD 0 = cchar '-'
  let item := if minus ∨ item.headD 0 = cchar '+' then item.drop 1 else item
  let item :=
    if item.headD 0 = cchar '0' ∧ tolower (item.getD 1 0) = cchar 'x' then item.drop 2 else item
  let digits := item.takeWhile (hexDigit? · |>.isSome) |>.filterMap hexDigit?
  let n := digits.foldl (fun n d => n * 16 + d) 0
  if digits = [] then none else if minus then some (0 - n) else some n

-- The bytes of `uc` in UTF-8, which are made from the last one on.
def utf8 (uc : UInt32) : Bytes :=
  let more (uc : UInt32) : UInt8 := ((uc ||| 0x80) &&& 0xbf).toUInt8
  if uc < 0x80 then [uc.toUInt8]
  else if uc < 0x800 then [(uc >>> 6 ||| 0xc0).toUInt8, more uc]
  else if uc < 0x10000 then [(uc >>> 12 ||| 0xe0).toUInt8, more (uc >>> 6), more uc]
  else [(uc >>> 18 ||| 0xf0).toUInt8, more (uc >>> 12), more (uc >>> 6), more uc]

section

-- What is in `uc` or `uc2` where `sscanf` does not set it.
variable (stale : Bytes → UInt32)

-- The rest of an escape sequence `\u`, from the `u` on: what it adds, and where it ends.
def parseUtf16 (ptr : Bytes) : Bytes × Bytes :=
  let uc := sscanf4x (ptr.drop 1) |>.getD (stale (ptr.drop 1))
  let ptr := ptr.drop 4
  if 0xdc00 ≤ uc ∧ uc ≤ 0xdfff ∨ uc = 0 then ([], ptr)
  else if 0xd800 ≤ uc ∧ uc ≤ 0xdbff then
    if ptr.getD 1 0 ≠ cchar '\\' ∨ ptr.getD 2 0 ≠ cchar 'u' then ([], ptr)
    else
      let uc2 := sscanf4x (ptr.drop 3) |>.getD (stale (ptr.drop 3))
      let ptr := ptr.drop 6
      if uc2 < 0xdc00 ∨ uc2 > 0xdfff then ([], ptr)
      else (utf8 ((0x10000 : UInt32) + ((uc &&& 0x3ff) <<< 10 ||| uc2 &&& 0x3ff)), ptr)
  else (utf8 uc, ptr)

-- An escape sequence, from the byte behind the backslash on.
def parseEscape (ptr : Bytes) : Bytes × Bytes :=
  let c := ptr.headD 0
  if c = cchar 'b' then ([8], ptr)
  else if c = cchar 'f' then ([12], ptr)
  else if c = cchar 'n' then ([10], ptr)
  else if c = cchar 'r' then ([13], ptr)
  else if c = cchar 't' then ([9], ptr)
  else if c = cchar 'u' then parseUtf16 stale ptr
  else ([c], ptr)

-- The loop that copies a string to `out`, for `n` bytes at most.
def parseStringLoop : Nat → Bytes → Bytes → Bytes × Bytes
  | 0,     ptr, out => (out, ptr)
  | n + 1, ptr, out =>
    let c := ptr.headD 0
    if c = cchar '"' ∨ c = 0 then (out, ptr)
    else if c ≠ cchar '\\' then parseStringLoop n (ptr.drop 1) (out ++ [c])
    else
      let (piece, ptr) := parseEscape stale (ptr.drop 1)
      parseStringLoop n (ptr.drop 1) (out ++ piece)

-- The string, and what is behind it. It may be without a quote in the end.
def parseString (str : Bytes) : Option (Bytes × Bytes) :=
  if str.headD 0 ≠ cchar '"' then none
  else
    let (out, ptr) := parseStringLoop stale str.length (str.drop 1) []
    some (out.takeWhile (· ≠ 0), if ptr.headD 0 = cchar '"' then ptr.drop 1 else ptr)

-- `n` bounds the depth of the calls, with the rounds of the loops. It is more than twice the length of the
-- text.
mutual

def parseValue : Nat → Bytes → Option (CJson × Bytes)
  | 0,     _     => none
  | n + 1, value =>
    if cstr "null" <+: value then some (⟨cJSONNull, [], none, []⟩, value.drop 4)
    else if cstr "false" <+: value then some (⟨cJSONFalse, [], none, []⟩, value.drop 5)
    else if cstr "true" <+: value then some (⟨cJSONTrue, [], none, []⟩, value.drop 4)
    else if value.headD 0 = cchar '"' then
      parseString stale value |>.map fun (s, value) => (⟨cJSONString, s, none, []⟩, value)
    else if value.headD 0 = cchar '-' ∨ isDigit (value.headD 0) then
      some (⟨cJSONNumber, [], none, []⟩, parseNumber value)
    else if value.headD 0 = cchar '[' then
      let value := skip (value.drop 1)
      if value.headD 0 = cchar ']' then some (⟨cJSONArray, [], none, []⟩, value.drop 1)
      else parseArray n value |>.map fun (child, value) => (⟨cJSONArray, [], none, child⟩, value)
    else if value.headD 0 = cchar '\x7b' then
      let value := skip (value.drop 1)
      if value.headD 0 = cchar '\x7d' then some (⟨cJSONObject, [], none, []⟩, value.drop 1)
      else parseObject n value |>.map fun (child, value) => (⟨cJSONObject, [], none, child⟩, value)
    else none

-- The items of an array, and what is behind its end.
def parseArray : Nat → Bytes → Option (List CJson × Bytes)
  | 0,     _     => none
  | n + 1, value => do
    let (child, value) ← parseValue n (skip value)
    let value := skip value
    if value.headD 0 = cchar ',' then
      let (children, value) ← parseArray n (value.drop 1)
      return (child :: children, value)
    else if value.headD 0 = cchar ']' then return ([child], value.drop 1)
    else none

-- The items of an object, and what is behind its end.
def parseObject : Nat → Bytes → Option (List CJson × Bytes)
  | 0,     _     => none
  | n + 1, value => do
    let (name, value) ← parseString stale (skip value)
    let value := skip value
    if value.headD 0 ≠ cchar ':' then none
    else
      let (child, value) ← parseValue n (skip (value.drop 1))
      let child := { child with string := some name }
      let value := skip value
      if value.headD 0 = cchar ',' then
        let (children, value) ← parseObject n (value.drop 1)
        return (child :: children, value)
      else if value.headD 0 = cchar '\x7d' then return ([child], value.drop 1)
      else none

end

def cJSONParse (value : Bytes) : Option CJson :=
  parseValue stale (2 * value.length + 1) (skip value) |>.map (·.1)

end
