import TnsParser.Library.Emitting
import TnsParser.OracleTns.JsonBuffer
import TnsParser.OracleTns.Reports
import TnsParser.OracleTns.Tame

-- What is printed of malformed connect data. What has been printed before a fault counts.

open Except Emitting

-- The functions print here what they return elsewhere.
abbrev Printing := Emitting Fault Printf

namespace Printing

def printf (fmt : String) (args : List Arg) : Printing Unit :=
  emit ⟨fmt, args⟩

def printItem (object : Option CJson) (string : Bytes) (fmt : String) : Printing Unit := do
  match ← cJSONGetObjectItem object string with
  | some value => if value.type = cJSONString then printf fmt [.text value.valuestring]
  | none       => return

def printDescription (root : CJson) : Printing Unit := do
  match ← cJSONGetObjectItem root (cstr "DESCRIPTION") with
  | none      => return
  | some desc =>
    let connData ← cJSONGetObjectItem desc (cstr "CONNECT_DATA")
    printItem connData (cstr "SERVICE_NAME") "    SERVICE_NAME : %s\n"
    let cid ← cJSONGetObjectItem connData (cstr "CID")
    printItem cid (cstr "HOST") "    HOST : %s\n"
    printItem cid (cstr "USER") "    USER : %s\n"

-- `root` is what `cJSON_Parse` returns.
def printRoot (root : Option CJson) : Printing Unit :=
  match root with
  | none      => return
  | some root => printDescription root

def tnsConnectHandle (cJSONParse : Bytes → Option CJson) (pkt : Bytes) (len : Nat) (sess : TnsSession) :
    Printing (ErrorCode × TnsSession) := do
  if len ≤ tnsHeadLen then
    return (.success, sess)
  let dataLen ← reading .handler (connectDataLen pkt)
  if dataLen ≤ 0 then
    return (.success, sess)
  let version ← reading .handler (connectVer pkt)
  let versionCompatible ← reading .handler (connectVerCompatible pkt)
  let sess := { sess with version, versionCompatible, state := .connect }
  let offset ← reading .handler (connectDataOffset pkt)
  let (_, jsonbuf, outlen) ←
    parseConnectDataToJson (pkt.drop offset.toNat) dataLen.toNat (2 * dataLen.toNat)
  printf "%s %s connect data len:%d\n"
    [.str sess.curSessDesc, .str (directionStr sess.curDir), .num outlen]
  printRoot (cJSONParse jsonbuf)
  return (.success, sess)

end Printing

-- The item that a path leads to.
def CJson.at? (root : CJson) : List Bytes → Option CJson
  | []           => root
  | name :: path => (root.item? name).bind (·.at? path)

-- What is printed for the item at a path.
def jsonReport (root : CJson) (path : List Bytes) (fmt : String) : List Printf :=
  match root.at? path with
  | some value => if value.type = cJSONString then [⟨fmt, [.text value.valuestring]⟩] else []
  | none       => []

def jsonReports (root : CJson) : List Printf :=
  jsonReport root serviceNamePath serviceNameFmt ++ jsonReport root hostPath hostFmt ++
    jsonReport root userPath userFmt

variable {pkt : Bytes} {len : Nat} {sess : TnsSession} {root : CJson}

theorem printItem_eq (object : CJson) (string : Bytes) (fmt : String) :
    printItem object string fmt = .ok (jsonReport object [string] fmt) := by
  simp only [printItem, cJSONGetObjectItem, jsonReport, CJson.at?, bind, Except.bind]
  cases object.item? string <;> rfl

theorem printItem_emits (object : CJson) (string : Bytes) (fmt : String) :
    Emits (Printing.printItem object string fmt) (.ok ()) (jsonReport object [string] fmt) := by
  refine .lift_bind rfl ?_
  rw [jsonReport, CJson.at?]
  cases object.item? string
  case none => exact .pure
  case some value =>
    by_cases hs : value.type = cJSONString
    case pos =>
      simp only [hs, if_true, Option.bind_some, CJson.at?]
      exact .emit _
    case neg =>
      simp only [hs, if_false, Option.bind_some, CJson.at?]
      exact .pure

theorem printItem_emits_none (string : Bytes) (fmt : String) :
    Emits (Printing.printItem none string fmt) (.error .nullPointer) [] :=
  .lift_bind_error rfl

-- What follows a search gets the item that is found.
theorem getObjectItem_emits {α : Type} {name : Bytes} {item : Option CJson} {f : Option CJson → Printing α}
    {r : Except Fault α} {out : List Printf} (h : root.item? name = item) (hf : Emits (f item) r out) :
    Emits (liftM (cJSONGetObjectItem root name) >>= f) r out :=
  .lift_bind (congrArg ok h) hf

theorem jsonReport_cons_none {name : Bytes} {path : List Bytes} {fmt : String}
    (h : root.item? name = none) : jsonReport root (name :: path) fmt = [] := by
  simp [jsonReport, CJson.at?, h]

theorem jsonReport_cons_some {item : CJson} {name : Bytes} {path : List Bytes} {fmt : String}
    (h : root.item? name = some item) : jsonReport root (name :: path) fmt = jsonReport item path fmt := by
  simp [jsonReport, CJson.at?, h]

-- What is printed of the description, whether there is a fault or not.
theorem printDescription_emits (root : CJson) :
    Emits (Printing.printDescription root) ((printDescription root).map fun _ => ()) (jsonReports root) ∧
      ∀ out, printDescription root = .ok out → out = jsonReports root := by
  simp only [jsonReports, serviceNamePath, hostPath, userPath, cidPath, List.cons_append, List.nil_append]
  cases hdesc : root.item? (cstr "DESCRIPTION")
  case none =>
    have hcoarse : printDescription root = .ok [] := by
      simp [printDescription, cJSONGetObjectItem, bind, Except.bind, hdesc, pure, Except.pure]
    simp only [hcoarse, jsonReport_cons_none hdesc, List.append_nil]
    exact ⟨getObjectItem_emits hdesc .pure, fun _ h => (ok.inj h).symm⟩
  case some desc =>
    simp only [jsonReport_cons_some hdesc]
    cases hconn : desc.item? (cstr "CONNECT_DATA")
    case none =>
      have hcoarse : printDescription root = .error .nullPointer := by
        simp [printDescription, cJSONGetObjectItem, bind, Except.bind, hdesc, hconn, printItem_none]
      simp only [hcoarse, jsonReport_cons_none hconn, List.append_nil]
      refine ⟨?_, by simp⟩
      refine getObjectItem_emits hdesc <| getObjectItem_emits hconn ?_
      exact .bind_error <| printItem_emits_none _ _
    case some connData =>
      simp only [jsonReport_cons_some hconn]
      cases hcid : connData.item? (cstr "CID")
      case none =>
        have hcoarse : printDescription root = .error .nullPointer := by
          simp [printDescription, cJSONGetObjectItem, bind, Except.bind, hdesc, hconn, hcid, printItem_eq,
            printItem_none]
        simp only [hcoarse, jsonReport_cons_none hcid]
        refine ⟨?_, by simp⟩
        refine getObjectItem_emits hdesc <| getObjectItem_emits hconn ?_
        rw [List.append_assoc]
        refine .bind (printItem_emits _ _ _) <| getObjectItem_emits hcid ?_
        exact .bind_error <| printItem_emits_none _ _
      case some cid =>
        simp only [jsonReport_cons_some hcid]
        have hcoarse : printDescription root =
            .ok (jsonReport connData [cstr "SERVICE_NAME"] serviceNameFmt ++
              jsonReport cid [cstr "HOST"] hostFmt ++ jsonReport cid [cstr "USER"] userFmt) := by
          simp [printDescription, cJSONGetObjectItem, bind, Except.bind, hdesc, hconn, hcid, printItem_eq,
            pure, Except.pure, serviceNameFmt, hostFmt, userFmt]
        simp only [hcoarse]
        refine ⟨?_, fun _ h => (ok.inj h).symm⟩
        refine getObjectItem_emits hdesc <| getObjectItem_emits hconn ?_
        rw [List.append_assoc]
        refine .bind (printItem_emits _ _ _) <| getObjectItem_emits hcid ?_
        exact .bind (printItem_emits _ _ _) <| printItem_emits _ _ _

theorem printRoot_emits (root : Option CJson) :
    ∃ r, Emits (Printing.printRoot root) r ((root.map jsonReports).getD []) := by
  cases root
  case none      => exact ⟨_, .pure⟩
  case some root => exact ⟨_, printDescription_emits root |>.left⟩

-- The handler that prints ends as the other one does, with what that one returns.
def Erases (x : Printing (ErrorCode × TnsSession)) (y : Except Fault Outcome) : Prop :=
  ∃ out, Emits x (y.map fun o => (o.code, o.sess)) out ∧ ∀ o, y = .ok o → o.out = out

namespace Erases

variable {α : Type} {x x' : Printing (ErrorCode × TnsSession)} {y y' : Except Fault Outcome}
  {z : Except Fault α} {f : α → Printing (ErrorCode × TnsSession)} {g : α → Except Fault Outcome}

theorem pure {code : ErrorCode} : Erases (pure (code, sess)) (pure ⟨code, sess, []⟩) := by
  refine ⟨[], .pure, ?_⟩
  rintro _ ⟨⟩
  rfl

theorem ite {c : Prop} [Decidable c] (h : Erases x y) (h' : Erases x' y') :
    Erases (if c then x else x') (if c then y else y') := by
  split <;> assumption

-- Both start in the same way.
theorem lift (h : ∀ a, z = .ok a → Erases (f a) (g a)) : Erases (liftM z >>= f) (z >>= g) := by
  cases hz : z
  case error e => exact ⟨[], .lift_bind_error rfl, fun _ h => nomatch h⟩
  case ok a =>
    obtain ⟨out, hx, hy⟩ := h a hz
    exact ⟨out, .lift_bind rfl hx, hy⟩

end Erases

theorem tnsConnectHandle_erases (cJSONParse : Bytes → Option CJson) :
    Erases (Printing.tnsConnectHandle cJSONParse pkt len sess)
      (tnsConnectHandle cJSONParse pkt len sess) := by
  refine .ite .pure <| .lift fun dataLen _ => .ite .pure <| .lift fun version _ => ?_
  refine .lift fun versionCompatible _ => .lift fun offset _ => .lift fun json _ => ?_
  obtain ⟨_, jsonbuf, outlen⟩ := json
  cases hroot : cJSONParse jsonbuf
  case none =>
    simp only [hroot]
    refine ⟨_, .bind (.emit _) <| .bind .pure .pure, ?_⟩
    rintro _ ⟨⟩
    rfl
  case some root =>
    simp only [hroot]
    obtain ⟨hemits, hout⟩ := printDescription_emits root
    cases hd : printDescription root
    case error e =>
      rw [hd] at hemits
      exact ⟨_, .bind (.emit _) <| .bind_error hemits, fun _ h => nomatch h⟩
    case ok out =>
      rw [hd] at hemits
      refine ⟨_, .bind (.emit _) <| .bind hemits .pure, ?_⟩
      rintro _ ⟨⟩
      simp [hout out hd]

-- A connect packet of `len` bytes with its data. Both its fields and the data are inside of it.
structure CarriesData (pkt : Bytes) (len : Nat) (data : Bytes) : Prop where
  memory : len ≤ pkt.length
  fields : 28 ≤ len
  size   : (connectDataLen pkt).map (·.toNat) = some data.length
  inside : ∃ offset ∈ connectDataOffset pkt,
    offset.toNat + data.length ≤ len ∧ pkt.LiesAt offset.toNat data

def connectPrinted (cJSONParse : Bytes → Option CJson) (pkt : Bytes) (len : Nat) (sess : TnsSession) :
    List Printf :=
  emitted <| Printing.tnsConnectHandle cJSONParse pkt len sess

def IsDescriptorText (data : Bytes) : Prop :=
  ∃ d : Descriptor, d.Over IsPlain ∧ data = d.text

-- The translator returns an error for the data of the packet.
def IsRejected (pkt : Bytes) : Prop :=
  ∃ dataLen ∈ connectDataLen pkt, ∃ offset ∈ connectDataOffset pkt, ∃ code text outlen,
    parseConnectDataToJson (pkt.drop offset.toNat) dataLen.toNat (2 * dataLen.toNat) =
      .ok (code, text, outlen) ∧ code ≠ 0

-- Nothing is reported of malformed data.
def MalformedUnreported (cJSONParse : Bytes → Option CJson) (pkt : Bytes) (len : Nat) (data : Bytes)
    (sess : TnsSession) : Prop :=
  ¬IsDescriptorText data ∨ IsRejected pkt → (connectPrinted cJSONParse pkt len sess).filter isReport = []

-- The JSON value that the data start with when they are translated.
def translatedJson? (cJSONParse : Bytes → Option CJson) (data : Bytes) : Option CJson :=
  if data.head? = some (cchar '(') then cJSONParse <| (translated data).flatMap piece else none

-- One of the paths that are reported leads to a string.
def CJson.HasReport (root : CJson) : Prop :=
  ∃ path ∈ [serviceNamePath, hostPath, userPath], ∃ item ∈ root.at? path, item.type = cJSONString

variable {stale : Bytes → UInt32} {data : Bytes} {path : List Bytes} {fmt : String}

theorem jsonReport_eq_nil_iff :
    jsonReport root path fmt = [] ↔ ¬∃ item ∈ root.at? path, item.type = cJSONString := by
  rw [jsonReport]
  cases root.at? path <;> simp

theorem jsonReports_eq_nil_iff : jsonReports root = [] ↔ ¬root.HasReport := by
  simp [jsonReports, jsonReport_eq_nil_iff, CJson.HasReport]

theorem isReport_jsonReport {p : Printf} (hf : fmt ∈ [serviceNameFmt, hostFmt, userFmt])
    (hp : p ∈ jsonReport root path fmt) : isReport p := by
  rw [jsonReport] at hp
  cases h : root.at? path
  case none => simp [h] at hp
  case some item =>
    have hp : p = ⟨fmt, [.text item.valuestring]⟩ := by
      simp only [h] at hp
      split at hp
      case isTrue  => exact List.mem_singleton.mp hp
      case isFalse => contradiction
    rw [hp]
    exact decide_eq_true hf

theorem filter_jsonReports : (jsonReports root).filter isReport = jsonReports root := by
  refine List.filter_eq_self.mpr fun p hp => ?_
  simp only [jsonReports, List.mem_append] at hp
  rcases hp with (hp | hp) | hp
  · exact isReport_jsonReport (by simp) hp
  · exact isReport_jsonReport (by simp) hp
  · exact isReport_jsonReport (by simp) hp

theorem cJSONParse_nil : cJSONParse stale [] = none := by
  simp [cJSONParse, parseValue, skip, cstr, cchar, isDigit]

-- The parser gets the translation of the data, or nothing.
theorem parse_translated (stale : Bytes → UInt32) (rest : Bytes) (hd : data ≠ []) (hf : FitsBuffer data) :
    ∃ code text outlen, parseConnectDataToJson (data ++ rest) data.length (2 * data.length) =
      .ok (code, text, outlen) ∧ cJSONParse stale text = translatedJson? (cJSONParse stale) data := by
  by_cases hfirst : data.head? = some (cchar '(')
  case neg =>
    obtain ⟨c, p, rfl⟩ := List.exists_cons_of_ne_nil hd
    have hc : c ≠ cchar '(' := by simpa using hfirst
    refine ⟨-2, [], 2 * (c :: p).length, ?_, by rw [cJSONParse_nil, translatedJson?, if_neg hfirst]⟩
    simp [parseConnectDataToJson, connectDataByte, reading, bind, Except.bind, hc, pure, Except.pure]
  case pos =>
    have hlen := hf hfirst |>.left
    obtain ⟨q, rfl⟩ := List.head?_eq_some_iff.mp hfirst
    cases List.eq_nil_or_concat' q
    case inl hq => simp [hq] at hlen
    case inr hq =>
      obtain ⟨p, last, rfl⟩ := hq
      have htext : cchar '(' :: (p ++ [last]) ++ rest = cchar '(' :: (p ++ last :: rest) := by simp
      have hlen : (cchar '(' :: (p ++ [last])).length = p.length + 2 := by simp
      rw [htext, hlen, parseConnectDataToJson_eq (by omega), translatedJson?, if_pos hfirst,
        flatMap_translated]
      by_cases hl : last = cchar ')'
      case pos => exact ⟨_, _, _, by rw [if_pos hl], by rw [if_pos hl]⟩
      case neg => exact ⟨_, _, _, by rw [if_neg hl], by rw [if_neg hl]⟩

-- What is reported of the data, be they malformed or not.
theorem connectPrinted_reports (c : CarriesData pkt len data) (hf : FitsBuffer data) :
    (connectPrinted (cJSONParse stale) pkt len sess).filter isReport =
      ((translatedJson? (cJSONParse stale) data).map jsonReports).getD [] := by
  obtain ⟨dataLen, hlen, hsize⟩ := Option.map_eq_some_iff.mp c.size
  obtain ⟨offset, hoffset, _, rest, hrest⟩ := c.inside
  have hpkt : 28 ≤ pkt.length := c.fields.trans c.memory
  have hhead : ¬len ≤ tnsHeadLen := by
    have hfields := c.fields
    rw [tnsHeadLen]
    omega
  by_cases hd : data = []
  case pos =>
    have hz : dataLen ≤ 0 := UInt16.le_zero_iff.mpr <| UInt16.toNat_inj.mp <| by simp [hsize, hd]
    have hemits : Emits (Printing.tnsConnectHandle (cJSONParse stale) pkt len sess)
        (.ok (.success, sess)) [] :=
      .ite_neg hhead <| .lift_bind (reading_eq_ok.mpr hlen) <| .ite_pos hz .pure
    rw [connectPrinted, hemits.emitted, translatedJson?, if_neg (by simp [hd])]
    rfl
  case neg =>
    have hz : ¬dataLen ≤ 0 := fun hz => by
      rw [UInt16.le_zero_iff.mp hz] at hsize
      exact hd <| List.length_eq_zero_iff.mp hsize.symm
    obtain ⟨version, compatible, hversion, hcompatible⟩ := exists_connectVers (by omega : 11 < pkt.length)
    obtain ⟨code, text, outlen, hparse, hroot⟩ := parse_translated stale rest hd hf
    have hparse : parseConnectDataToJson (pkt.drop offset.toNat) dataLen.toNat (2 * dataLen.toNat) =
        .ok (code, text, outlen) := by
      rw [← hrest, hsize, hparse]
    obtain ⟨r, hprinted⟩ := printRoot_emits (cJSONParse stale text)
    let args : List Arg := [.str sess.curSessDesc, .str (directionStr sess.curDir), .num outlen]
    have hemits : Emits (Printing.tnsConnectHandle (cJSONParse stale) pkt len sess) _
        (⟨"%s %s connect data len:%d\n", args⟩ :: ((cJSONParse stale text).map jsonReports).getD []) :=
      .ite_neg hhead <| .lift_bind (reading_eq_ok.mpr hlen) <| .ite_neg hz <|
        .lift_bind (reading_eq_ok.mpr hversion) <| .lift_bind (reading_eq_ok.mpr hcompatible) <|
        .lift_bind (reading_eq_ok.mpr hoffset) <| .lift_bind hparse <| .bind (.emit _) hprinted.then_pure
    have hline : isReport ⟨"%s %s connect data len:%d\n", args⟩ = false := by
      simp [isReport, serviceNameFmt, hostFmt, userFmt]
    rw [connectPrinted, hemits.emitted, List.filter_cons, hline, if_neg Bool.false_ne_true, hroot]
    cases translatedJson? (cJSONParse stale) data
    case none      => rfl
    case some root => exact filter_jsonReports

-- The translator returns 0 for the text of a descriptor.
theorem not_isRejected (c : CarriesData pkt len data) (h : IsDescriptorText data) : ¬IsRejected pkt := by
  rintro ⟨dataLen, hlen, offset, hoffset, code, text, outlen, hparse, hcode⟩
  obtain ⟨d, hd, rfl⟩ := h
  obtain ⟨dataLen', hlen', hsize⟩ := Option.map_eq_some_iff.mp c.size
  obtain ⟨offset', hoffset', _, rest, hrest⟩ := c.inside
  cases hlen.symm.trans hlen'
  cases Option.mem_unique hoffset hoffset'
  have hpos := d.two_le_length_text
  rw [← hrest, hsize, d.parse_text hd (by omega)] at hparse
  cases hparse
  exact hcode rfl

-- Malformed data are not reported if and only if there is nothing to report in the JSON value that their
-- translation starts with.
theorem malformedUnreported_iff (c : CarriesData pkt len data) (hf : FitsBuffer data)
    (stale : Bytes → UInt32) (sess : TnsSession) :
    MalformedUnreported (cJSONParse stale) pkt len data sess ↔
      IsDescriptorText data ∨ ∀ root ∈ translatedJson? (cJSONParse stale) data, ¬root.HasReport := by
  have hnil : ((translatedJson? (cJSONParse stale) data).map jsonReports).getD [] = [] ↔
      ∀ root ∈ translatedJson? (cJSONParse stale) data, ¬root.HasReport := by
    cases translatedJson? (cJSONParse stale) data <;> simp [jsonReports_eq_nil_iff]
  rw [MalformedUnreported, connectPrinted_reports c hf, hnil]
  constructor
  case mp =>
    intro h
    by_cases hd : IsDescriptorText data
    case pos => exact .inl hd
    case neg => exact .inr <| h (.inl hd)
  case mpr =>
    rintro (hd | hnone) hmalformed
    · exact absurd hmalformed <| not_or.mpr ⟨not_not_intro hd, not_isRejected c hd⟩
    · exact hnone

-- The data start with the text of some descriptors, with no other one behind it, and one of the paths that
-- are reported leads to a leaf of them.
def StartsReported (data : Bytes) : Prop :=
  ∃ (ds : Descriptors) (rest : Bytes), ds.Over IsClean ∧ data = ds.text ++ rest ∧ rest.head? ≠ some (cchar '(') ∧
    CJson.HasReport ⟨cJSONObject, [], none, ds.toCJsons⟩

-- What the parser gets for data that start with a parenthesis: all but the last byte may be translated.
theorem translatedJson?_eq (cJSONParse : Bytes → Option CJson) (hfirst : data.head? = some (cchar '('))
    (hlen : 2 ≤ data.length) :
    ∃ (q : Bytes) (next : UInt8) (extra : Bytes), data = cchar '(' :: (q ++ extra) ∧
      (extra = [] ∧ next = 0 ∨ extra = [next] ∧ next ≠ cchar ')') ∧
      translatedJson? cJSONParse data = cJSONParse (cchar '\x7b' :: cchar '"' :: pieces (cchar '(') q next) := by
  obtain ⟨q, rfl⟩ := List.head?_eq_some_iff.mp hfirst
  obtain ⟨p, last, rfl⟩ := List.eq_nil_or_concat' q |>.resolve_left fun h => by simp [h] at hlen
  rw [translatedJson?, if_pos hfirst, flatMap_translated]
  by_cases hl : last = cchar ')'
  case pos =>
    refine ⟨p ++ [last], 0, [], by simp, .inl ⟨rfl, rfl⟩, ?_⟩
    rw [if_pos hl, pieces_cons]
    rfl
  case neg =>
    refine ⟨p, last, [last], rfl, .inr ⟨rfl, hl⟩, ?_⟩
    rw [if_neg hl]
    rfl

theorem Descriptors.text_head? (ds : Descriptors) (rest : Bytes) :
    (ds.text ++ rest).head? = some (cchar '(') := by
  have hfirst : (ds.text ++ rest).headD 0 = cchar '(' := ds.text_headD rest
  cases hd : ds.text ++ rest
  case nil      => exact absurd (hd ▸ hfirst) (by decide)
  case cons c p => exact congrArg some (by simpa [hd] using hfirst)

-- Data that start so are parsed to the descriptors, whatever is behind these.
theorem translatedJson?_text {ds : Descriptors} {rest : Bytes} (hds : ds.Over IsClean)
    (hrest : rest.head? ≠ some (cchar '(')) (hlen : 2 ≤ (ds.text ++ rest).length) :
    translatedJson? (cJSONParse stale) (ds.text ++ rest) = some ⟨cJSONObject, [], none, ds.toCJsons⟩ := by
  obtain ⟨q, next, extra, hdata, hextra, heq⟩ := translatedJson?_eq _ (ds.text_head? rest) hlen
  rw [heq]
  rcases hextra with ⟨rfl, rfl⟩ | ⟨rfl, hnext⟩
  · rw [List.append_nil] at hdata
    refine cJSONParse_pieces_text hds hdata.symm ?_
    cases rest
    case nil      => exact (by decide : (0 : UInt8) ≠ cchar '(')
    case cons c p => exact fun h => hrest (congrArg some h)
  · -- The last byte is none of the descriptors.
    obtain ⟨tail, last, rfl⟩ : ∃ tail last, rest = tail ++ [last] := by
      refine (List.eq_nil_or_concat' rest).resolve_left fun hnil => hnext ?_
      obtain ⟨p, hp⟩ := ds.text_concat
      rw [hnil, List.append_nil, hp, ← List.cons_append] at hdata
      exact (List.append_singleton_inj.mp hdata).right.symm
    rw [← List.append_assoc, ← List.cons_append] at hdata
    obtain ⟨hq, rfl⟩ := List.append_singleton_inj.mp hdata
    refine cJSONParse_pieces_text hds hq.symm ?_
    cases tail
    case nil      => exact fun h => hrest (congrArg some h)
    case cons c p => exact fun h => hrest (congrArg some h)

-- Nothing else is parsed, if the data have no byte that means something in JSON.
theorem text_of_translatedJson? {root : CJson} (hf : FitsBuffer data) (htame : ∀ c ∈ data, IsTame c)
    (h : translatedJson? (cJSONParse stale) data = some root) :
    ∃ (ds : Descriptors) (rest : Bytes), ds.Over IsClean ∧ data = ds.text ++ rest ∧
      rest.head? ≠ some (cchar '(') ∧ root = ⟨cJSONObject, [], none, ds.toCJsons⟩ := by
  have hfirst : data.head? = some (cchar '(') := by
    by_contra hfirst
    rw [translatedJson?, if_neg hfirst] at h
    cases h
  obtain ⟨q, next, extra, rfl, hextra, heq⟩ := translatedJson?_eq (cJSONParse stale) hfirst (hf hfirst).left
  rw [heq] at h
  have hq : ∀ c ∈ q, IsTame c := fun c hc => htame c (by simp [hc])
  obtain ⟨ds, tail, hds, htail, hnext, rfl⟩ := cJSONParse_pieces_tame hq h
  refine ⟨ds, tail ++ extra, hds, by rw [← List.cons_append, htail, List.append_assoc], ?_, rfl⟩
  cases tail
  case cons c p => exact fun h => hnext (Option.some.inj h)
  case nil =>
    rcases hextra with ⟨rfl, -⟩ | ⟨rfl, -⟩
    · exact fun h => (by cases h)
    · exact fun h => hnext (Option.some.inj h)

-- Data that are well formed, that do not start with a parenthesis, or that have no byte with a meaning in
-- JSON and do not start with what is reported.
def IsUnreported (data : Bytes) : Prop :=
  IsDescriptorText data ∨ data.head? ≠ some (cchar '(') ∨ (∀ c ∈ data, IsTame c) ∧ ¬StartsReported data

-- Malformed data of these kinds are not reported, and none that start with what is reported are unreported.
-- Between the two are only data with a byte that has a meaning in JSON.
theorem malformedUnreported_of_bytes (c : CarriesData pkt len data) (hf : FitsBuffer data)
    (stale : Bytes → UInt32) (sess : TnsSession) :
    (IsUnreported data → MalformedUnreported (cJSONParse stale) pkt len data sess) ∧
      (MalformedUnreported (cJSONParse stale) pkt len data sess →
        IsDescriptorText data ∨ ¬StartsReported data) := by
  rw [malformedUnreported_iff c hf]
  constructor
  case left =>
    rintro (htext | hfirst | ⟨htame, hstart⟩)
    · exact .inl htext
    · refine .inr fun root hroot => ?_
      rw [translatedJson?, if_neg hfirst] at hroot
      cases hroot
    · refine .inr fun root hroot hreport => hstart ?_
      obtain ⟨ds, rest, hds, hdata, hrest, rfl⟩ := text_of_translatedJson? hf htame hroot
      exact ⟨ds, rest, hds, hdata, hrest, hreport⟩
  case right =>
    refine Or.imp_right fun hnone => ?_
    rintro ⟨ds, rest, hds, rfl, hrest, hreport⟩
    have hlen := (hf (ds.text_head? rest)).left
    exact hnone _ (translatedJson?_text hds hrest hlen) hreport

-- A byte behind a descriptor is not translated, and has no effect on what comes before it.
theorem flatMap_translated_concat {d : Descriptor} {c : UInt8} (h : d.Over IsPlain) (hc : c ≠ cchar ')')
    (ho : c ≠ cchar '(') :
    (translated (d.text ++ [c])).flatMap piece = (Descriptors.one d).render := by
  obtain ⟨p, hp⟩ := d.text_eq
  have htext : d.text ++ [c] = cchar '(' :: (p ++ [cchar ')'] ++ [c]) := by simp [hp]
  have hpieces : cstr "\x7b\"" ++ pieces (cchar '(') (p ++ [cchar ')']) c = pieces 0 d.text c := by
    rw [hp, pieces_cons]
    rfl
  have hbefore : beforeEntry 0 = cstr "\x7b\"" := rfl
  have hafter : afterEntry c = cstr "\x7d" := if_neg ho
  rw [htext, flatMap_translated, if_neg hc, hpieces, d.pieces_text h, hbefore, hafter, Descriptors.render,
    Descriptors.entries, d.entry_eq]
  simp [cstr]

-- A packet with any data behind its fields.
def dataPacket (data : Bytes) : Bytes :=
  let len := UInt16.ofNat data.length
  (⟨28 + len, 0, PktType.connect.val, 0, 0⟩ : TnsPktHead).encode ++
    (TnsBody.connect ⟨313, 300, Vector.replicate 12 0, len, 28, data⟩).encode

def byteBehind : Bytes := fullDescriptor.text ++ [cchar 'X']

theorem tnsConnectHandle_reports_malformed :
    ¬∀ (stale : Bytes → UInt32) (pkt : Bytes) (len : Nat) (data : Bytes) (sess : TnsSession),
      CarriesData pkt len data → FitsBuffer data →
        MalformedUnreported (cJSONParse stale) pkt len data sess := by
  intro h
  have hc : CarriesData (dataPacket byteBehind) (dataPacket byteBehind).length byteBehind :=
    ⟨Nat.le_refl _, by decide, by decide, 28, by decide, by decide, by decide⟩
  have hf : FitsBuffer byteBehind := by decide
  have hclean : fullDescriptor.Over IsClean := by decide
  have hjson : translatedJson? (cJSONParse fun _ => 0) byteBehind =
      some ⟨cJSONObject, [], none, (Descriptors.one fullDescriptor).toCJsons⟩ := by
    rw [translatedJson?, if_pos (by decide), byteBehind,
      flatMap_translated_concat (by decide) (by decide) (by decide),
      cJSONParse_render (.one fullDescriptor) hclean]
  have hmalformed : ¬IsDescriptorText byteBehind := by
    rintro ⟨d, _, hd⟩
    obtain ⟨p, hp⟩ := d.text_eq
    have hlast := congrArg List.getLast? (hd.trans hp)
    rw [byteBehind, List.getLast?_concat, ← List.cons_append, List.getLast?_concat] at hlast
    exact absurd hlast (by decide)
  have hreport := h (fun _ => 0) _ _ byteBehind .zero hc hf (.inl hmalformed)
  rw [connectPrinted_reports hc hf, hjson, Option.map_some, Option.getD_some] at hreport
  refine jsonReports_eq_nil_iff.mp hreport ⟨serviceNamePath, by simp, ?_⟩
  exact ⟨_, rfl, rfl⟩

def byteBefore : Bytes := cchar 'X' :: fullDescriptor.text

theorem malformedUnreported_of_byte_before :
    MalformedUnreported (cJSONParse fun _ => 0) (dataPacket byteBefore) (dataPacket byteBefore).length
      byteBefore .zero := by
  have hc : CarriesData (dataPacket byteBefore) (dataPacket byteBefore).length byteBefore :=
    ⟨Nat.le_refl _, by decide, by decide, 28, by decide, by decide, by decide⟩
  exact malformedUnreported_of_bytes hc (by decide) (fun _ => 0) .zero |>.left <| .inr <| .inl (by decide)
