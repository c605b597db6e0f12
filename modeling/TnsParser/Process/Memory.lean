import TnsParser.CJson.Memory
import TnsParser.OracleTns.Faults
import TnsParser.Process.Checked

-- The memory that is allocated for packets. Only `tns_connect_handle` allocates any.

open Memory

-- What ends a run: a fault, or a block that is given back twice.
inductive Stop
  | fault (f : Fault)
  | freed (block : Nat)

def stopping {α : Type} (x : Except Fault α) : Except Stop α :=
  x.mapError .fault

abbrev HandlerInto := Bytes → Nat → TnsSession → Memory → Except Stop (Outcome × Memory)

-- A handler that allocates nothing.
def Handler.into (h : Handler) : HandlerInto := fun pkt len sess m => do
  let o ← stopping (h pkt len sess)
  return (o, m)

structure PktHandleInto where
  version : UInt16
  type    : UInt8
  func    : Option HandlerInto

section

variable (fails : Nat → Bool) (stale : Bytes → UInt32)

-- The buffer is not tested. `parse_connect_data_to_json` clears it first.
def tnsConnectHandleInto : HandlerInto := fun pkt len sess m => do
  if len ≤ tnsHeadLen then
    return (⟨.success, sess, []⟩, m)
  let dataLen ← stopping <| reading .handler (connectDataLen pkt)
  if dataLen ≤ 0 then
    return (⟨.success, sess, []⟩, m)
  let (jsonbuf, m) := m.malloc fails
  let version ← stopping <| reading .handler (connectVer pkt)
  let versionCompatible ← stopping <| reading .handler (connectVerCompatible pkt)
  let sess := { sess with version, versionCompatible, state := .connect }
  let offset ← stopping <| reading .handler (connectDataOffset pkt)
  if jsonbuf = none then
    .error (.fault .nullPointer)
  else
    let (_, text, outlen) ←
      stopping <| parseConnectDataToJson (pkt.drop offset.toNat) dataLen.toNat (2 * dataLen.toNat)
    let args := [.str sess.curSessDesc, .str (directionStr sess.curDir), .num outlen]
    let out : List Printf := [⟨"%s %s connect data len:%d\n", args⟩]
    let (root, m) ← (cJSONParseInto fails stale text false m).mapError .freed
    match root with
    | none           => return (⟨.success, sess, out⟩, m)
    | some (root, _) =>
      let report ← stopping <| printDescription root.toCJson
      return (⟨.success, sess, out ++ report⟩, m)

def msgTypeHandlesInto : List PktHandleInto := [
  ⟨0, PktType.connect.val,  some <| tnsConnectHandleInto fails stale⟩,
  ⟨0, PktType.accept.val,   some <| Handler.into tnsAcceptHandle⟩,
  ⟨0, PktType.ack.val,      none⟩,
  ⟨0, PktType.refuse.val,   some <| Handler.into tnsRefuseHandle⟩,
  ⟨0, PktType.redirect.val, none⟩,
  ⟨0, PktType.data.val,     some <| Handler.into tnsDataHandle⟩,
  ⟨0, PktType.null.val,     none⟩,
  ⟨0, PktType.unknown1.val, none⟩,
  ⟨0, PktType.abort.val,    none⟩,
  ⟨0, PktType.unknown2.val, none⟩,
  ⟨0, PktType.resend.val,   some <| Handler.into tnsResendHandle⟩,
  ⟨0, PktType.marker.val,   none⟩,
  ⟨0, PktType.unknown3.val, none⟩,
  ⟨0, PktType.unknown4.val, none⟩
]

def packetHandleInto (type : UInt8) : List PktHandleInto → HandlerInto
  | [],        _,   _,   sess, m => .ok (⟨.pktType, sess, []⟩, m)
  | ph :: phs, pkt, len, sess, m =>
    match ph.func with
    | none      => packetHandleInto type phs pkt len sess m
    | some func =>
      if ph.type = type then func pkt len sess m else packetHandleInto type phs pkt len sess m

def tnsProtocolParseInto : HandlerInto := fun data len sess m => do
  let pktLen ← stopping <| reading .protocolParse (pktLen data)
  if len ≠ pktLen.toNat then
    return (⟨.pktLen, sess, []⟩, m)
  let type ← stopping <| reading .protocolParse (pktType data)
  packetHandleInto type (msgTypeHandlesInto fails stale) data len sess m

def mainprocessInto (arr : SessArray) (p : Arrival) (m : Memory) :
    Except Stop ((SessArray × Outcome) × Memory) := do
  let (arr, i) ← stopping <| arr.sessMustFindNode p.key p.dir p.time
  let sess := { arr i with curDir := p.dir, curSessDesc := sessDesc p.key }
  let (o, m) ← tnsProtocolParseInto fails stale p.data p.len sess m
  return ((Function.update arr i o.sess, o), m)

def processAllInto (ps : List Arrival) (m : Memory) : Except Stop ((SessArray × Log) × Memory) :=
  ps.foldlM (fun ((arr, log), m) p => do
    let ((arr, o), m) ← mainprocessInto fails stale arr p m
    return ((arr, log ++ [(p, o)]), m)) ((sessInit, []), m)

end

-- What a connect packet leaves allocated: the buffer for its text, and the item that this was parsed into.
structure Leftover where
  jsonbuf : Nat
  root    : Option Node

namespace Leftover

def blocks (l : Leftover) : List Nat :=
  l.jsonbuf :: (l.root.map Node.owned).getD []

def json (l : Leftover) : Option CJson :=
  l.root.map Node.toCJson

end Leftover

-- What a function leaves that starts with the memory `m`, where `expected` is what it gives when there
-- is always memory, and `roots` are the JSON values that are parsed then: all that it has allocated for
-- them.
inductive Leaks {α : Type} (fails : Nat → Bool) (m : Memory) (roots : List (Option CJson)) (expected : Except Fault α) :
    Except Stop (α × Memory) → Prop
  | fault {f} (h : (∃ k, m.count ≤ k ∧ fails k = true) ∨ expected = .error f) :
    Leaks fails m roots expected (.error (.fault f))
  | ok {a m'} (ls : List Leftover) (hlen : ls.length = roots.length) (has : Accounted m m' [] (ls.flatMap (·.blocks)))
    (h : Failed fails m m' ∨ expected = .ok a ∧ ls.map (·.json) = roots) : Leaks fails m roots expected (.ok (a, m'))

variable {α β : Type} {fails : Nat → Bool} {stale : Bytes → UInt32} {m m' : Memory} {roots roots' : List (Option CJson)}
  {pkt data : Bytes} {len : Nat} {sess : TnsSession} {arr : SessArray} {p : Arrival}

namespace Leaks

theorem pure {a : α} : Leaks fails m [] (.ok a) (.ok (a, m)) :=
  .ok [] rfl (.refl ..) (.inr ⟨rfl, rfl⟩)

-- Both begin in the same way.
theorem lift {z : Except Fault β} {g : β → Except Fault α} {f : β → Except Stop (α × Memory)}
    (h : ∀ b, z = .ok b → Leaks fails m roots (g b) (f b)) :
    Leaks fails m roots (z >>= g) (stopping z >>= f) := by
  cases hz : z
  case error e => exact .fault (.inr rfl)
  case ok b    => exact h b hz

-- One after the other.
theorem bind {x : Except Fault α} {y : Except Stop (α × Memory)} {g : α → Except Fault β}
    {f : α × Memory → Except Stop (β × Memory)} (h : Leaks fails m roots x y)
    (hf : ∀ a m', Leaks fails m' roots' (g a) (f (a, m'))) :
    Leaks fails m (roots ++ roots') (x >>= g) (y >>= f) := by
  cases h
  case fault e h => exact .fault (h.imp_right fun h => by rw [h]; rfl)
  case ok a m₁ ls hlen has h =>
    have hrest := hf a m₁
    have hbind : (Except.ok (a, m₁) >>= f) = f (a, m₁) := rfl
    rw [hbind]
    generalize f (a, m₁) = out at hrest ⊢
    cases hrest
    case fault e h' =>
      refine .fault ?_
      cases h'
      case inl h' =>
        obtain ⟨k, hk, hfail⟩ := h'
        exact .inl ⟨k, Nat.le_trans has.count hk, hfail⟩
      case inr h' =>
        cases h
        case inl h =>
          obtain ⟨k, hk, -, hfail⟩ := h
          exact .inl ⟨k, hk, hfail⟩
        case inr h => exact .inr (by rw [h.left]; exact h')
    case ok b m₂ ls' hlen' has' h' =>
      have htotal : Accounted m m₂ [] ((ls ++ ls').flatMap (·.blocks)) := by
        rw [List.flatMap_append]
        exact (has.trans (has'.frame _)).perm List.perm_append_comm
      refine .ok (ls ++ ls') (by rw [List.length_append, List.length_append, hlen, hlen']) htotal ?_
      cases h
      case inl h => exact .inl (h.left has'.count)
      case inr h =>
        cases h'
        case inl h' => exact .inl (h'.right has.count)
        case inr h' =>
          refine .inr ⟨by rw [h.left]; exact h'.left, ?_⟩
          rw [List.map_append, h.right, h'.right]

-- The result is put into something else.
theorem map {x : Except Fault α} {y : Except Stop (α × Memory)} (h : Leaks fails m roots x y) (f : α → β) :
    Leaks fails m roots (x >>= fun a => .ok (f a)) (y >>= fun r => .ok (f r.1, r.2)) :=
  List.append_nil roots ▸ h.bind fun _ _ => .pure

end Leaks

theorem Handler.into_leaks (h : Handler) : Leaks fails m [] (h pkt len sess) (h.into pkt len sess m) := by
  rw [Handler.into]
  cases h pkt len sess
  case error e => exact .fault (.inr rfl)
  case ok o    => exact .pure

-- What `tns_connect_handle` parses.
def connectRoots (stale : Bytes → UInt32) (pkt : Bytes) (len : Nat) : List (Option CJson) :=
  if tnsHeadLen < len ∧ connectDataLen pkt ≠ some 0 then [connectJson? (cJSONParse stale) pkt] else []

-- What the text of the buffer is parsed into stays allocated, as the buffer does.
theorem parse_leaks {jsonbuf : Nat} {m₁ : Memory} (has : Accounted m m₁ [] [jsonbuf]) (text : Bytes)
    (sess : TnsSession) (out : List Printf) :
    Leaks (α := Outcome) fails m [cJSONParse stale text]
      (match cJSONParse stale text with
        | none      => return ⟨.success, sess, out⟩
        | some root => return ⟨.success, sess, out ++ (← printDescription root)⟩)
      (do
        let (root, m) ← (cJSONParseInto fails stale text false m₁).mapError .freed
        match root with
        | none           => return (⟨.success, sess, out⟩, m)
        | some (root, _) =>
          let report ← stopping <| printDescription root.toCJson
          return (⟨.success, sess, out ++ report⟩, m)) := by
  rw [cJSONParse_eq]
  obtain ⟨m₂, hparse, has₂, h⟩ | ⟨c, rest, m₂, hparse, has₂, -, h⟩ :=
    cJSONParseInto_cases fails stale text false m₁ <;> rw [hparse]
  case inl =>
    refine .ok [⟨jsonbuf, none⟩] rfl (has.trans (has₂.frame _)) ?_
    cases h
    case inl h => exact .inl (h.right has.count)
    case inr h => exact .inr ⟨by rw [h]; rfl, by rw [h]; rfl⟩
  case inr =>
    have has : Accounted m m₂ [] (([⟨jsonbuf, some c⟩] : List Leftover).flatMap (·.blocks)) :=
      (has.trans (has₂.frame _)).perm (by simp [Leftover.blocks])
    simp only [h, Option.map_some, Except.mapError, bind, Except.bind, stopping]
    cases printDescription c.toCJson
    case error e => exact .fault (.inr rfl)
    case ok report => exact .ok [⟨jsonbuf, some c⟩] rfl has (.inr ⟨rfl, rfl⟩)

theorem tnsConnectHandleInto_leaks (fails : Nat → Bool) (stale : Bytes → UInt32) (pkt : Bytes) (len : Nat)
    (sess : TnsSession) (m : Memory) :
    Leaks fails m (connectRoots stale pkt len) (tnsConnectHandle (cJSONParse stale) pkt len sess)
      (tnsConnectHandleInto fails stale pkt len sess m) := by
  rw [tnsConnectHandle, tnsConnectHandleInto, connectRoots]
  by_cases hlen : len ≤ tnsHeadLen
  case pos =>
    rw [if_pos hlen, if_pos hlen, if_neg fun h => Nat.not_lt_of_le hlen h.left]
    exact .pure
  case neg =>
    rw [if_neg hlen, if_neg hlen]
    refine .lift fun dataLen hdata => ?_
    have hdata := Except.reading_eq_ok.mp hdata
    by_cases hzero : dataLen ≤ 0
    case pos =>
      have : dataLen = 0 := by simpa using hzero
      rw [if_pos hzero, if_pos hzero, if_neg fun h => h.right (this ▸ hdata)]
      exact .pure
    case neg =>
      have hne : connectDataLen pkt ≠ some 0 := by
        rw [hdata]
        rintro ⟨⟩
        exact hzero (Nat.le_refl 0)
      rw [if_neg hzero, if_neg hzero, if_pos ⟨Nat.lt_of_not_le hlen, hne⟩]
      obtain ⟨m₁, hm, -, hfail⟩ | ⟨jsonbuf, m₁, hm, has, -⟩ := malloc_cases fails m <;> simp only [hm]
      case inl =>
        obtain ⟨k, hk, -, hfail⟩ := hfail
        exact .lift fun _ _ => .lift fun _ _ => .lift fun _ _ => .fault (.inl ⟨k, hk, hfail⟩)
      case inr =>
        refine .lift fun version _ => .lift fun compatible _ => .lift fun offset hoffset => ?_
        rw [if_neg (Option.some_ne_none jsonbuf)]
        refine .lift fun json hjson => ?_
        obtain ⟨code, text, outlen⟩ := json
        have hroot : connectJson? (cJSONParse stale) pkt = cJSONParse stale text := by
          rw [connectJson?, hdata, Except.reading_eq_ok.mp hoffset, Option.bind_some, Option.bind_some, hjson]
        rw [hroot]
        exact parse_leaks has text _ _

theorem packetHandleInto_leaks (type : UInt8) (m : Memory) :
    Leaks fails m (if type = PktType.connect.val then connectRoots stale pkt len else [])
      (packetHandle type (msgTypeHandles (cJSONParse stale)) pkt len sess)
      (packetHandleInto type (msgTypeHandlesInto fails stale) pkt len sess m) := by
  simp only [packetHandle, msgTypeHandles, packetHandleInto, msgTypeHandlesInto, eq_comm (b := type)]
  by_cases hc : type = PktType.connect.val
  case pos => simpa only [hc, if_true] using tnsConnectHandleInto_leaks fails stale pkt len sess m
  case neg =>
    simp only [hc, if_false]
    by_cases ha : type = PktType.accept.val <;> simp only [ha, if_true, if_false]
    case pos => exact Handler.into_leaks _
    by_cases hr : type = PktType.refuse.val <;> simp only [hr, if_true, if_false]
    case pos => exact Handler.into_leaks _
    by_cases hd : type = PktType.data.val <;> simp only [hd, if_true, if_false]
    case pos => exact Handler.into_leaks _
    by_cases hs : type = PktType.resend.val <;> simp only [hs, if_true, if_false]
    case pos => exact Handler.into_leaks _
    case neg => exact .pure

-- What is parsed for a packet.
def packetRoots (stale : Bytes → UInt32) (p : Arrival) : List (Option CJson) :=
  if HasConnectData p.data p.len then [connectJson? (cJSONParse stale) p.data] else []

theorem tnsProtocolParseInto_leaks (fails : Nat → Bool) (stale : Bytes → UInt32) (p : Arrival) (sess : TnsSession)
    (m : Memory) :
    Leaks fails m (packetRoots stale p) (tnsProtocolParse (cJSONParse stale) p.data p.len sess)
      (tnsProtocolParseInto fails stale p.data p.len sess m) := by
  rw [tnsProtocolParse, tnsProtocolParseInto, packetRoots]
  refine .lift fun l hl => ?_
  have hl := Except.reading_eq_ok.mp hl
  have hmatches : LenMatches p.data p.len ↔ p.len = l.toNat := by simp [LenMatches, hl, eq_comm]
  by_cases hlen : p.len ≠ l.toNat
  case pos =>
    rw [if_pos hlen, if_pos hlen, if_neg fun h => hlen (hmatches.mp h.left.left)]
    exact .pure
  case neg =>
    rw [if_neg hlen, if_neg hlen]
    refine .lift fun type ht => ?_
    have ht := Except.reading_eq_ok.mp ht
    have hm := hmatches.mpr (not_not.mp hlen)
    have hroots : (if HasConnectData p.data p.len then [connectJson? (cJSONParse stale) p.data] else []) =
        if type = PktType.connect.val then connectRoots stale p.data p.len else [] := by
      simp only [HasConnectData, isHandled_iff hm ht, connectRoots]
      by_cases hc : type = PktType.connect.val <;> simp [hc]
    rw [hroots]
    exact packetHandleInto_leaks type m

theorem mainprocessInto_leaks (fails : Nat → Bool) (stale : Bytes → UInt32) (arr : SessArray) (p : Arrival)
    (m : Memory) :
    Leaks fails m (packetRoots stale p) (mainprocess (cJSONParse stale) arr p)
      (mainprocessInto fails stale arr p m) := by
  refine .lift fun found _ => ?_
  have h := tnsProtocolParseInto_leaks fails stale p
    { found.1 found.2 with curDir := p.dir, curSessDesc := sessDesc p.key } m
  exact h.map fun o => (Function.update found.1 found.2 o.sess, o)

-- What is preserved by one step is preserved by the whole run.
theorem Leaks.foldlM {σ π : Type} {step : σ → π → Except Fault σ} {stepInto : σ × Memory → π → Except Stop (σ × Memory)}
    {rootsOf : π → List (Option CJson)}
    (h : ∀ s p m, Leaks fails m (rootsOf p) (step s p) (stepInto (s, m) p)) (ps : List π) (s : σ) (m : Memory) :
    Leaks fails m (ps.flatMap rootsOf) (ps.foldlM step s) (ps.foldlM stepInto (s, m)) := by
  induction ps generalizing s m
  case nil => exact .pure
  case cons p ps hi =>
    rw [List.flatMap_cons, List.foldlM_cons, List.foldlM_cons]
    exact (h s p m).bind fun s m => hi s m

theorem processAllInto_leaks (fails : Nat → Bool) (stale : Bytes → UInt32) (ps : List Arrival) (m : Memory) :
    Leaks fails m (ps.flatMap (packetRoots stale)) (processAll (cJSONParse stale) ps)
      (processAllInto fails stale ps m) := by
  refine .foldlM (fun s p m => ?_) ps _ m
  exact (mainprocessInto_leaks fails stale s.1 p m).map fun r => (r.1, s.2 ++ [(p, r.2)])

theorem flatMap_packetRoots (stale : Bytes → UInt32) (ps : List Arrival) :
    ps.flatMap (packetRoots stale) =
      (ps.filter fun p => HasConnectData p.data p.len).map fun p => connectJson? (cJSONParse stale) p.data := by
  induction ps
  case nil => rfl
  case cons p ps hi =>
    rw [List.flatMap_cons, packetRoots, hi, List.filter_cons]
    by_cases h : HasConnectData p.data p.len <;> simp [h]

-- What a run leaves of the memory `m`. What the program does else is what it does without the memory, as
-- long as there is some.
structure BlocksLeft (fails : Nat → Bool) (stale : Bytes → UInt32) (ps : List Arrival) (m : Memory) : Prop where
  once  : ∀ block, processAllInto fails stale ps m ≠ .error (.freed block)
  fault : ∀ f, processAllInto fails stale ps m = .error (.fault f) →
    (∃ k, m.count ≤ k ∧ fails k = true) ∨ processAllChecked ps = .error (.fault f)
  left  : ∀ arr log m', processAllInto fails stale ps m = .ok ((arr, log), m') →
    ∃ ls : List Leftover, ls.length = (ps.filter fun p => HasConnectData p.data p.len).length ∧
      m'.live.Perm (ls.flatMap (·.blocks) ++ m.live) ∧
      (Failed fails m m' ∨ processAllChecked ps = .ok (arr, log) ∧
        ls.map (·.json) =
          (ps.filter fun p => HasConnectData p.data p.len).map fun p => connectJson? (cJSONParse stale) p.data)

-- Nothing is ever given back of what is allocated for connect packets whose data stay in the blocks: after
-- every run the memory has, with what it had before, the buffer of each of them, and the whole item if the
-- text was parsed.

-- A connect packet with the data `(A=b)`.
def connectArrival (key : SessKey) : Arrival where
  data := [0, 33, 0, 0, 1, 0, 0, 0, 1, 57, 1, 44] ++ List.replicate 12 0 ++ [0, 5, 0, 28] ++ cstr "(A=b)"
  len  := 33
  key  := key
  dir  := .request
  time := 0

-- Two connect packets, where there is no memory for the item of the second.
