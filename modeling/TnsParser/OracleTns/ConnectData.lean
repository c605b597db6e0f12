import TnsParser.OracleTns.Packet

-- The `(NAME=VALUE)` text of a connect packet, and its translation to JSON.

-- `strcat` of the first byte at `p`: a NUL adds nothing.
def strncat1 (c : UInt8) : Bytes :=
  if c = 0 then [] else [c]

-- `bufin[i]`. The last two reads of a text of one byte are behind it.
def connectDataByte (bufin : Bytes) (inlen i : Nat) : Except Fault UInt8 :=
  reading (if i < inlen then .connectData else .pastConnectData) bufin[i]?

-- What the loop adds for the byte `p[i]`, where `p = bufin + 1`.
def jsonPiece (bufin : Bytes) (inlen i : Nat) : Except Fault Bytes := do
  let c ← connectDataByte bufin inlen (i + 1)
  if c = cchar '(' then
    let prev ← connectDataByte bufin inlen i
    return if prev = cchar ')' then [] else cstr "\x7b\""
  else if c = cchar '=' then
    let next ← connectDataByte bufin inlen (i + 2)
    return if next = cchar '(' then cstr "\":" else cstr "\":\""
  else if c = cchar ')' then
    let next ← connectDataByte bufin inlen (i + 2)
    let prev ← connectDataByte bufin inlen i
    return if next = cchar '(' then
        if prev = cchar ')' then cstr ",\"" else cstr "\",\""
      else
        if prev = cchar ')' then cstr "\x7d" else cstr "\"\x7d"
  else
    return strncat1 c

-- `n` more bytes from `p[i]` on. The guard looks at `q`, which stays at the start of the output.
def jsonLoop (bufin : Bytes) (inlen outlen : Nat) : Nat → Nat → Bytes → Except Fault Bytes
  | 0,     _, text => .ok text
  | n + 1, i, text => do
    let piece ← (if 0 + 2 < outlen then jsonPiece bufin inlen i else pure [])
    jsonLoop bufin inlen outlen n (i + 1) (text ++ piece)

-- The code returned, and the text and the length in `bufout` and `outlen`. The text is not cut off at the
-- size of the buffer.
def parseConnectDataToJson (bufin : Bytes) (inlen outlen : Nat) :
    Except Fault (Int × Bytes × Nat) := do
  let first ← connectDataByte bufin inlen 0
  if first ≠ cchar '(' then
    return (-2, [], outlen)
  let i := inlen - 2
  let text ← jsonLoop bufin inlen outlen i 0 (cstr "\x7b\"")
  let last ← connectDataByte bufin inlen (i + 1)
  if last ≠ cchar ')' then
    return (-2, text, outlen)
  let prev ← connectDataByte bufin inlen i
  let text := text ++ if prev = cchar ')' then cstr "\x7d" else cstr "\"\x7d"
  return (0, text, text.length + 1)
