import TnsParser.Common

-- The hex dump of `util.c`. The memory from `data` on is a list, and a read behind it gives `none`.

-- What is printed: by a call of `printf`, or by one of `print_ansi_at_line`.
inductive DumpPrint
  | printf (p : Printf)
  | ansiAtLine (text : Bytes)

-- A byte that is not visible is printed as a dot.
def ansi (c : UInt8) : UInt8 :=
  if 0x20 ≤ c ∧ c ≤ 0x7e then c else cchar '.'

def printAnsiAtLine : Bytes → Nat → Option Bytes
  | _,         0       => some []
  | [],        _ + 1   => none
  | c :: data, len + 1 => (printAnsiAtLine data len).map (ansi c :: ·)

-- The loop over the next `n` bytes, which start at `i`.
def hexLoop (ptr : Bytes) : Nat → Nat → Option (List DumpPrint)
  | 0,     _ => some []
  | n + 1, i => do
    let c ← ptr[i]?
    let hex := DumpPrint.printf ⟨"%02x ", [.num c.toNat]⟩
    if (i + 1) % 32 = 0 then
      let text ← printAnsiAtLine (ptr.drop (i - 31)) 32
      return hex :: .ansiAtLine text :: .printf ⟨"\n", []⟩ :: (← hexLoop ptr n (i + 1))
    else
      return hex :: (← hexLoop ptr n (i + 1))

-- The second loop pads the last line, which it does not do when there is nothing on it.
def debugHexPrintln (isHexdumpEnable : Bool) (begin_ : String) (data : Bytes) (len : Nat) :
    Option (List DumpPrint) := do
  if ¬isHexdumpEnable then
    return []
  let lines ← hexLoop data len 0
  let pad := List.replicate ((32 - len % 32) % 32) <| DumpPrint.printf ⟨"   ", []⟩
  let rest ←
    if len ≠ 0 then
      (printAnsiAtLine (data.drop (len - len % 32)) (len % 32 + 1)).map ([DumpPrint.ansiAtLine ·])
    else
      some []
  return .printf ⟨"\n%s----start---- len %u\n", [.str begin_, .num len]⟩ :: (lines ++ pad ++ rest) ++
    [.printf ⟨"\n%s----end----\n\n", [.str begin_]⟩]

-- The arguments that are printed in hex form, and the text that `print_ansi_at_line` prints.

def hexForms (out : List DumpPrint) : List (List Arg) :=
  out.filterMap fun
    | .printf p     => if p.fmt = "%02x " then some p.args else none
    | .ansiAtLine _ => none

def ansiText (out : List DumpPrint) : Bytes :=
  out.flatMap fun
    | .printf _        => []
    | .ansiAtLine text => text

variable {data rest : Bytes} {begin_ : String} {out out' : List DumpPrint} {n i : Nat}

@[simp]
theorem hexForms_hex {c : UInt8} :
    hexForms (.printf ⟨"%02x ", [.num c.toNat]⟩ :: out) = [.num c.toNat] :: hexForms out := rfl

theorem hexForms_printf {p : Printf} (h : p.fmt ≠ "%02x ") :
    hexForms (.printf p :: out) = hexForms out := by
  simp [hexForms, h]

@[simp]
theorem hexForms_ansiAtLine {text : Bytes} : hexForms (.ansiAtLine text :: out) = hexForms out := rfl

@[simp]
theorem ansiText_printf {p : Printf} : ansiText (.printf p :: out) = ansiText out := rfl

@[simp]
theorem ansiText_ansiAtLine {text : Bytes} : ansiText (.ansiAtLine text :: out) = text ++ ansiText out :=
  rfl

theorem hexForms_append : hexForms (out ++ out') = hexForms out ++ hexForms out' :=
  List.filterMap_append

theorem ansiText_append : ansiText (out ++ out') = ansiText out ++ ansiText out' :=
  List.flatMap_append

theorem printAnsiAtLine_eq (h : n ≤ data.length) :
    printAnsiAtLine data n = some ((data.take n).map ansi) := by
  induction data generalizing n
  case nil =>
    cases Nat.le_zero.mp h
    rfl
  case cons c data hi =>
    cases n
    case zero   => rfl
    case succ n => simp [printAnsiAtLine, hi (Nat.le_of_succ_le_succ h)]

theorem printAnsiAtLine_eq_none (h : data.length < n) : printAnsiAtLine data n = none := by
  induction data generalizing n
  case nil =>
    cases n
    case zero => contradiction
    case succ => rfl
  case cons c data hi =>
    cases n
    case zero   => contradiction
    case succ n => simp [printAnsiAtLine, hi (Nat.lt_of_succ_lt_succ h)]

-- The bytes of the lines that are complete, from the line of the byte `i` on.
def wholeLines (data : Bytes) (i : Nat) : Bytes :=
  (data.take (data.length - data.length % 32)).drop (i - i % 32)

theorem wholeLines_zero_append :
    wholeLines data 0 ++ data.drop (data.length - data.length % 32) = data := by
  simp [wholeLines]

theorem wholeLines_length : wholeLines data data.length = [] := by
  simp [wholeLines]

theorem wholeLines_succ (h : (i + 1) % 32 ≠ 0) : wholeLines data (i + 1) = wholeLines data i := by
  rw [wholeLines, wholeLines, (by omega : i + 1 - (i + 1) % 32 = i - i % 32)]

theorem wholeLines_line (h : (i + 1) % 32 = 0) (hl : i < data.length) :
    wholeLines data i = (data.drop (i - 31)).take 32 ++ wholeLines data (i + 1) := by
  have hi : i - i % 32 = i - 31 := by omega
  have hnext : i + 1 - (i + 1) % 32 = i - 31 + 32 := by omega
  have htake : ((data.take (data.length - data.length % 32)).drop (i - 31)).take 32 =
      (data.drop (i - 31)).take 32 := by
    rw [List.drop_take, List.take_take, Nat.min_eq_left (by omega)]
  rw [wholeLines, wholeLines, hi, hnext, ← htake, ← List.drop_drop, List.take_append_drop]

-- The loop prints the hex forms of the rest of the bytes, and the texts of the rest of the lines.
theorem hexLoop_eq (rest : Bytes) (h : i + n = data.length) :
    ∃ out, hexLoop (data ++ rest) n i = some out ∧
      hexForms out = (data.drop i).map (fun c => [.num c.toNat]) ∧
      ansiText out = (wholeLines data i).map ansi := by
  induction n generalizing i
  case zero =>
    have hi : i = data.length := h
    subst hi
    exact ⟨[], rfl, by simp [hexForms], by simp [ansiText, wholeLines_length]⟩
  case succ n hi =>
    have hl : i < data.length := by omega
    have hc : (data ++ rest)[i]? = some data[i] := by
      rw [List.getElem?_append_left hl, List.getElem?_eq_getElem hl]
    obtain ⟨out, hout, hhex, hansi⟩ := hi (i := i + 1) (by omega)
    rw [List.drop_eq_getElem_cons hl, List.map_cons, ← hhex]
    by_cases hline : (i + 1) % 32 = 0
    case pos =>
      have htext : printAnsiAtLine ((data ++ rest).drop (i - 31)) 32 =
          some (((data.drop (i - 31)).take 32).map ansi) := by
        rw [printAnsiAtLine_eq (by simp; omega), List.drop_append_of_le_length (by omega),
          List.take_append_of_le_length (by simp; omega)]
      let line : Bytes := ((data.drop (i - 31)).take 32).map ansi
      refine ⟨.printf ⟨"%02x ", [.num data[i].toNat]⟩ :: .ansiAtLine line :: .printf ⟨"\n", []⟩ :: out,
        ?_, ?_, ?_⟩
      · simp only [hexLoop, hc, hline, htext, hout, bind, Option.bind, if_true]
        rfl
      · rw [hexForms_hex, hexForms_ansiAtLine, hexForms_printf (by simp)]
      · rw [wholeLines_line hline hl, List.map_append, ← hansi]
        rfl
    case neg =>
      refine ⟨.printf ⟨"%02x ", [.num data[i].toNat]⟩ :: out, ?_, hexForms_hex, ?_⟩
      · simp only [hexLoop, hc, hline, hout, bind, Option.bind, if_false]
        rfl
      · rw [ansiText_printf, hansi, wholeLines_succ hline]

theorem hexForms_pad : hexForms (List.replicate n <| .printf ⟨"   ", []⟩) = [] := by
  simp [hexForms]

theorem ansiText_pad : ansiText (List.replicate n <| .printf ⟨"   ", []⟩) = [] := by
  simp [ansiText]

-- The last line takes one byte more than there is.
theorem debugHexPrintln_eq_none (h : data ≠ []) : debugHexPrintln true begin_ data data.length = none := by
  have hlen : data.length ≠ 0 := List.length_eq_zero_iff.not.mpr h
  have htext : printAnsiAtLine (data.drop (data.length - data.length % 32)) (data.length % 32 + 1) =
      none :=
    printAnsiAtLine_eq_none (by simp; omega)
  simp [debugHexPrintln, hlen, htext]

theorem debugHexPrintln_eq_some (begin_ : String) (c : UInt8) (rest : Bytes) (h : data ≠ []) :
    ∃ out, debugHexPrintln true begin_ (data ++ c :: rest) data.length = some out ∧
      hexForms out = data.map (fun c => [.num c.toNat]) ∧ ansiText out = (data ++ [c]).map ansi := by
  have hlen : data.length ≠ 0 := List.length_eq_zero_iff.not.mpr h
  obtain ⟨lines, hlines, hhex, hansi⟩ := hexLoop_eq (c :: rest) (Nat.zero_add data.length)
  have htext : printAnsiAtLine ((data ++ c :: rest).drop (data.length - data.length % 32))
      (data.length % 32 + 1) =
        some ((data.drop (data.length - data.length % 32) ++ [c]).map ansi) := by
    have hn : data.length % 32 + 1 = (data.drop (data.length - data.length % 32) ++ [c]).length := by
      simp
      omega
    have hdrop : (data ++ c :: rest).drop (data.length - data.length % 32) =
        data.drop (data.length - data.length % 32) ++ [c] ++ rest := by
      simp [List.drop_append_of_le_length]
    rw [hdrop, printAnsiAtLine_eq (by simp; omega), hn, List.take_left]
  let text : Bytes := (data.drop (data.length - data.length % 32) ++ [c]).map ansi
  refine ⟨.printf ⟨"\n%s----start---- len %u\n", [.str begin_, .num data.length]⟩ ::
    (lines ++ List.replicate ((32 - data.length % 32) % 32) (.printf ⟨"   ", []⟩) ++ [.ansiAtLine text]) ++
      [.printf ⟨"\n%s----end----\n\n", [.str begin_]⟩], ?_, ?_, ?_⟩
  · simp only [debugHexPrintln, hlines, htext, bind, Option.bind, hlen, ne_eq, not_false_eq_true, if_true,
      not_true_eq_false, if_false, Option.map_some]
    rfl
  · rw [List.cons_append, hexForms_printf (by simp), hexForms_append, hexForms_append, hexForms_append,
      hexForms_pad, hhex, hexForms_printf (by simp)]
    simp [hexForms]
  · rw [List.cons_append, ansiText_printf, ansiText_append, ansiText_append, ansiText_append,
      ansiText_pad, hansi]
    have hnil : ansiText [] = [] := rfl
    simp only [ansiText_ansiAtLine, ansiText_printf, hnil, List.append_nil, text]
    rw [← List.map_append, ← List.append_assoc, wholeLines_zero_append]

-- The dump of `data`, with `rest` behind it in the memory, has each byte once in both forms.
def DumpsOnce (begin_ : String) (data rest : Bytes) : Prop :=
  ∃ out, debugHexPrintln true begin_ (data ++ rest) data.length = some out ∧
    hexForms out = data.map (fun c => [.num c.toNat]) ∧ ansiText out = data.map ansi

-- Only the dump of nothing is as it should be: all others take the byte behind the data, which is a fault
-- if there is none, and print it.
theorem dumpsOnce_iff (begin_ : String) (data rest : Bytes) : DumpsOnce begin_ data rest ↔ data = [] := by
  constructor
  case mp =>
    rintro ⟨out, hout, _, hansi⟩
    by_contra h
    cases rest
    case nil =>
      rw [List.append_nil, debugHexPrintln_eq_none h] at hout
      contradiction
    case cons c rest =>
      obtain ⟨out', hout', _, hansi'⟩ := debugHexPrintln_eq_some begin_ c rest h
      cases hout.symm.trans hout'
      have hlen := congrArg List.length <| hansi.symm.trans hansi'
      simp at hlen
  case mpr =>
    rintro rfl
    exact ⟨_, rfl, by simp [hexForms], rfl⟩

-- A single byte: what is behind it is read.
theorem debugHexPrintln_reads_behind : ¬∀ begin_ data rest, DumpsOnce begin_ data rest := by
  intro h
  obtain ⟨out, hout, _⟩ := h "dump" [0x41] []
  have hnone : debugHexPrintln true "dump" [0x41] 1 = none := by decide
  exact nomatch hnone.symm.trans hout
