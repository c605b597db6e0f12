import TnsParser.OracleTns.Faults
import TnsParser.OracleTns.Layout
import TnsParser.OracleTns.Rendering

-- What is printed of a descriptor, and when.

open Except

namespace Descriptor

def name : Descriptor → Bytes
  | leaf name _ => name
  | node name _ => name

def value? : Descriptor → Option Bytes
  | leaf _ value => value
  | node _ _     => none

def children : Descriptor → List Descriptor
  | leaf _ _  => []
  | node _ ds => ds.toList

-- The first child of that name, in lower or upper case.
def child? (d : Descriptor) (name : Bytes) : Option Descriptor :=
  d.children.find? fun c => c.name.map tolower == name.map tolower

-- The descriptor that a path leads to.
def at? (d : Descriptor) : List Bytes → Option Descriptor
  | []           => d
  | name :: path => (d.child? name).bind (·.at? path)

-- The descriptor as the only child of one without a name, which is where paths start.
def root (d : Descriptor) : Descriptor :=
  node [] <| .one d

end Descriptor

-- What is printed for the value at a path. There is none for a descriptor that has children.
def report (d : Descriptor) (path : List Bytes) (fmt : String) : List Printf :=
  (d.root.at? path).bind (·.value?) |>.toList.map fun value => ⟨fmt, [.text value]⟩

def serviceNamePath : List Bytes := [cstr "DESCRIPTION", cstr "CONNECT_DATA", cstr "SERVICE_NAME"]

def cidPath : List Bytes := [cstr "DESCRIPTION", cstr "CONNECT_DATA", cstr "CID"]

def hostPath : List Bytes := cidPath ++ [cstr "HOST"]

def userPath : List Bytes := cidPath ++ [cstr "USER"]

def serviceNameFmt : String := "    SERVICE_NAME : %s\n"

def hostFmt : String := "    HOST : %s\n"

def userFmt : String := "    USER : %s\n"

-- What is to be printed of a descriptor.
def reports (d : Descriptor) : List Printf :=
  report d serviceNamePath serviceNameFmt ++ report d hostPath hostFmt ++ report d userPath userFmt

def isReport (p : Printf) : Bool :=
  p.fmt ∈ [serviceNameFmt, hostFmt, userFmt]

-- The descriptor is the data of the connect packet.
structure CarriesDescriptor (pkt : Bytes) (d : Descriptor) : Prop where
  len    : (connectDataLen pkt).map (·.toNat) = some d.text.length
  inside : ∃ offset ∈ connectDataOffset pkt, pkt.LiesAt offset.toNat d.text

-- A descriptor where all that is looked for is looked for in something.
def HasParents (d : Descriptor) : Prop :=
  (d.root.at? [cstr "DESCRIPTION"]).isSome → (d.root.at? cidPath).isSome

instance {d : Descriptor} : Decidable (HasParents d) :=
  inferInstanceAs <| Decidable (_ → _)

variable {stale : Bytes → UInt32} {pkt : Bytes} {d : Descriptor} {sess : TnsSession}

namespace Descriptor

theorem toCJson_child (d : Descriptor) : d.toCJson.child = d.children.map (·.toCJson) := by
  cases d
  case leaf      => rfl
  case node _ ds => exact ds.toCJsons_eq

theorem toCJson_string (d : Descriptor) : d.toCJson.string = some d.name := by
  cases d <;> rfl

-- A look-up in the item for a descriptor is one in the descriptor.
theorem item?_toCJson (d : Descriptor) (name : Bytes) :
    d.toCJson.item? name = (d.child? name).map (·.toCJson) := by
  rw [CJson.item?, toCJson_child, child?, List.find?_map]
  congr 2
  funext c
  simp [toCJson_string, cJSONStrcaseeq]

theorem printItem_toCJson (d : Descriptor) (name : Bytes) (fmt : String) :
    printItem d.toCJson name fmt =
      .ok (((d.child? name).bind (·.value?)).toList.map fun value => ⟨fmt, [.text value]⟩) := by
  have hstring : cJSONString = 4 ∧ cJSONObject ≠ cJSONString := by decide
  simp only [printItem, cJSONGetObjectItem, item?_toCJson, bind, Except.bind]
  cases d.child? name
  case none   => rfl
  case some c =>
    cases c <;> rfl

-- What is printed for the item that the rendering of a descriptor is parsed to.
theorem printDescription_toCJson (d : Descriptor) :
    printDescription d.root.toCJson =
      if (d.root.at? [cstr "DESCRIPTION"]).isSome ∧ d.root.at? cidPath = none then .error .nullPointer
      else .ok (reports d) := by
  simp only [printDescription, cJSONGetObjectItem, item?_toCJson, reports, report, serviceNamePath,
    hostPath, userPath, cidPath, List.cons_append, List.nil_append, at?]
  cases d.root.child? (cstr "DESCRIPTION")
  case none => rfl
  case some desc =>
    cases hconn : desc.child? (cstr "CONNECT_DATA")
    case none => simp [bind, Except.bind, item?_toCJson, hconn, printItem_none]
    case some conn =>
      cases hcid : conn.child? (cstr "CID")
      case none =>
        simp [bind, Except.bind, item?_toCJson, printItem_toCJson, hconn, hcid, printItem_none]
      case some cid =>
        simp [bind, Except.bind, pure, Except.pure, item?_toCJson, printItem_toCJson, hconn, hcid,
          serviceNameFmt, hostFmt, userFmt]

end Descriptor

-- The handler with the descriptor as the data of the packet.
theorem tnsConnectHandle_eq (h : d.Over IsClean) (hc : CarriesDescriptor pkt d) :
    ∃ sess' args, tnsConnectHandle (cJSONParse stale) pkt pkt.length sess =
      (printDescription d.root.toCJson).map fun out =>
        ⟨.success, sess', ⟨"%s %s connect data len:%d\n", args⟩ :: out⟩ := by
  obtain ⟨dataLen, hlen, htext⟩ := Option.map_eq_some_iff.mp hc.len
  obtain ⟨offset, hoffset, rest, hrest⟩ := hc.inside
  have hpkt : ¬pkt.length ≤ 27 :=
    connectDataOffset_eq_none_iff.not.mp (by simp [Option.mem_def.mp hoffset])
  have hhead : ¬pkt.length ≤ tnsHeadLen := by
    rw [tnsHeadLen]
    omega
  obtain ⟨version, compatible, hversion, hcompatible⟩ := exists_connectVers (by omega : 11 < pkt.length)
  have hpos := d.two_le_length_text
  have hzero : ¬dataLen ≤ 0 := by
    rintro hz
    simp [UInt16.le_zero_iff.mp hz] at htext
    omega
  have hparse : parseConnectDataToJson (pkt.drop offset.toNat) dataLen.toNat (2 * dataLen.toNat) =
      .ok (0, (Descriptors.one d).render, (Descriptors.one d).render.length + 1) := by
    rw [← hrest, htext]
    exact d.parse_text (h.mono fun _ hc => hc.toIsPlain) (by omega)
  refine ⟨{ sess with version, versionCompatible := compatible, state := .connect },
    [.str sess.curSessDesc, .str (directionStr sess.curDir),
      .num ((Descriptors.one d).render.length + 1 : Nat)], ?_⟩
  simp only [tnsConnectHandle, hhead, hlen, hzero, hversion, hcompatible, Option.mem_def.mp hoffset,
    hparse, reading, bind, Except.bind, if_false, cJSONParse_render (.one d) h]
  have hroot : printDescription ⟨cJSONObject, [], none, (Descriptors.one d).toCJsons⟩ =
      printDescription d.root.toCJson := rfl
  rw [hroot]
  cases printDescription d.root.toCJson <;> rfl

theorem isReport_report {path : List Bytes} {fmt : String} {p : Printf}
    (hf : fmt ∈ [serviceNameFmt, hostFmt, userFmt]) (hp : p ∈ report d path fmt) : isReport p := by
  obtain ⟨value, _, rfl⟩ := List.mem_map.mp hp
  exact decide_eq_true hf

theorem filter_reports : (reports d).filter isReport = reports d := by
  refine List.filter_eq_self.mpr fun p hp => ?_
  simp only [reports, List.mem_append] at hp
  rcases hp with (hp | hp) | hp
  · exact isReport_report (by simp) hp
  · exact isReport_report (by simp) hp
  · exact isReport_report (by simp) hp

-- The parameters of a connection are reported as the descriptor has them, if and only if nothing is looked
-- for in a descriptor that is not there.
theorem tnsConnectHandle_reports_iff (d : Descriptor) (h : d.Over IsClean) (hc : CarriesDescriptor pkt d)
    (sess : TnsSession) :
    (∃ o, tnsConnectHandle (cJSONParse stale) pkt pkt.length sess = .ok o ∧
      o.out.filter isReport = reports d) ↔ HasParents d := by
  obtain ⟨sess', args, heq⟩ := tnsConnectHandle_eq h hc
  have hline : isReport ⟨"%s %s connect data len:%d\n", args⟩ = false := by
    simp [isReport, serviceNameFmt, hostFmt, userFmt]
  rw [heq, d.printDescription_toCJson, HasParents]
  split
  case isTrue hn =>
    refine iff_of_false (fun ⟨o, ho, _⟩ => nomatch ho) fun hs => ?_
    simpa [hn.right] using hs hn.left
  case isFalse hn =>
    refine iff_of_true ⟨_, rfl, ?_⟩ fun hs => ?_
    · rw [List.filter_cons, hline, if_neg Bool.false_ne_true, filter_reports]
    · exact Option.isSome_iff_ne_none.mpr fun hcid => hn ⟨hs, hcid⟩

-- A packet with the text of the descriptor behind its fields.
def connectPacket (d : Descriptor) : Bytes :=
  let len := UInt16.ofNat d.text.length
  (⟨28 + len, 0, PktType.connect.val, 0, 0⟩ : TnsPktHead).encode ++
    (TnsBody.connect ⟨313, 300, Vector.replicate 12 0, len, 28, d.text⟩).encode

-- `(DESCRIPTION=x)`
def bareDescriptor : Descriptor :=
  .leaf (cstr "DESCRIPTION") (cstr "x")

theorem tnsConnectHandle_misses_parent :
    ¬∀ (stale : Bytes → UInt32) (pkt : Bytes) (d : Descriptor) (sess : TnsSession), d.Over IsClean →
      CarriesDescriptor pkt d → ∃ o, tnsConnectHandle (cJSONParse stale) pkt pkt.length sess = .ok o ∧
        o.out.filter isReport = reports d := by
  intro h
  have hc : CarriesDescriptor (connectPacket bareDescriptor) bareDescriptor :=
    ⟨by decide, 28, by decide, by decide⟩
  have ⟨o, ho, _⟩ := h (fun _ => 0) (connectPacket bareDescriptor) bareDescriptor .zero (by decide) hc
  obtain ⟨sess', args, heq⟩ := tnsConnectHandle_eq (by decide) hc
  rw [heq, bareDescriptor.printDescription_toCJson, if_pos (by decide)] at ho
  exact nomatch ho

-- `(DESCRIPTION=(CONNECT_DATA=(service_name=s)(CID=(HOST=h))))`
def fullDescriptor : Descriptor :=
  .node (cstr "DESCRIPTION") <| .one <| .node (cstr "CONNECT_DATA") <|
    .cons (.leaf (cstr "service_name") (cstr "s")) <| .one <| .node (cstr "CID") <|
      .one <| .leaf (cstr "HOST") (cstr "h")

theorem tnsConnectHandle_reports_of_full :
    ∃ o, tnsConnectHandle (cJSONParse fun _ => 0) (connectPacket fullDescriptor)
        (connectPacket fullDescriptor).length .zero = .ok o ∧
      o.out.filter isReport = [⟨serviceNameFmt, [.text (cstr "s")]⟩, ⟨hostFmt, [.text (cstr "h")]⟩] := by
  have hreports : reports fullDescriptor =
      [⟨serviceNameFmt, [.text (cstr "s")]⟩, ⟨hostFmt, [.text (cstr "h")]⟩] := by decide
  rw [← hreports]
  exact tnsConnectHandle_reports_iff fullDescriptor (by decide) ⟨by decide, 28, by decide, by decide⟩ .zero
    |>.mpr (by decide)
