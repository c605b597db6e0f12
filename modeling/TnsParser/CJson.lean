import TnsParser.Common

-- A parsed JSON value. `string` is the name of an item of an object, and null for other values.
structure CJson where
  type        : Nat
  valuestring : Bytes
  string      : Option Bytes
  child       : List CJson

def cJSONString : Nat := 4

def tolower (c : UInt8) : UInt8 :=
  if 0x41 ≤ c ∧ c ≤ 0x5a then c + 0x20 else c

-- Whether `cJSON_strcasecmp` gives 0.
def cJSONStrcaseeq (s₁ s₂ : Option Bytes) : Bool :=
  match s₁, s₂ with
  | none,    none    => true
  | some s₁, some s₂ => s₁.map tolower == s₂.map tolower
  | _,       _       => false

def CJson.item? (object : CJson) (string : Bytes) : Option CJson :=
  object.child.find? fun c => cJSONStrcaseeq c.string (some string)

def cJSONGetObjectItem (object : Option CJson) (string : Bytes) : Except Fault (Option CJson) :=
  match object with
  | none        => .error .nullPointer
  | some object => .ok <| object.item? string
