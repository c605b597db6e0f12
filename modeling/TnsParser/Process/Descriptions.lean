import TnsParser.Library.Decimal
import TnsParser.Process.Isolation

open Decimal Except

-- What `cur_sess_desc` says of a session.

variable {cJSONParse : Bytes → Option CJson} {arr arr' : SessArray} {log : Log} {o : Outcome} {ps : List Arrival}
  {p : Arrival} {key key' : SessKey} {dir : Direction} {a a' : UInt32} {v v' : UInt16} {rest rest' : List Char} {n : Nat}

-- The bytes of an address, as they are printed.
def addrByte (addr : UInt32) (i : Nat) : Nat :=
  (addr.toNat >>> (8 * i)) % 256

def addrText (addr : UInt32) (rest : List Char) : List Char :=
  Nat.toDigits 10 (addrByte addr 0) ++ '.' :: (Nat.toDigits 10 (addrByte addr 1) ++ '.' ::
    (Nat.toDigits 10 (addrByte addr 2) ++ '.' :: (Nat.toDigits 10 (addrByte addr 3) ++ rest)))

theorem inetNtoa_toList (addr : UInt32) : (inetNtoa addr).toList ++ rest = addrText addr rest := by
  have hdot : (toString ".").toList = ['.'] := rfl
  simp [inetNtoa, addrText, addrByte, hdot]

theorem ushort_toList (v : UInt16) : (toString v).toList = Nat.toDigits 10 v.toNat := by
  rw [show toString v = toString v.toNat from rfl, Nat.toString_eq_ofList_toDigits, String.toList_ofList]

theorem sessDesc_toList (key : SessKey) : (sessDesc key).toList =
    '[' :: addrText key.sip (':' :: (Nat.toDigits 10 (ntohs key.sport).toNat ++ ' ' :: '-' :: '>' :: ' ' ::
      addrText key.dip (':' :: (Nat.toDigits 10 (ntohs key.dport).toNat ++ [']'])))) := by
  simp only [← inetNtoa_toList, ← ushort_toList, sessDesc]
  have hopen : (toString "[").toList = ['['] := rfl
  have hcolon : (toString ":").toList = [':'] := rfl
  have harrow : (toString " -> ").toList = [' ', '-', '>', ' '] := rfl
  have hclose : (toString "]").toList = [']'] := rfl
  have htext (s : String) : toString s = s := rfl
  simp [hopen, hcolon, harrow, hclose, htext (inetNtoa _)]

theorem addrText_inj (h : Separated rest) (h' : Separated rest') (heq : addrText a rest = addrText a' rest') :
    a = a' ∧ rest = rest' := by
  have hdot {s : List Char} : Separated ('.' :: s) := separated_cons (by decide)
  obtain ⟨h0, heq⟩ := toDigits_append_inj hdot hdot heq
  obtain ⟨h1, heq⟩ := toDigits_append_inj hdot hdot (List.cons.inj heq).right
  obtain ⟨h2, heq⟩ := toDigits_append_inj hdot hdot (List.cons.inj heq).right
  obtain ⟨h3, heq⟩ := toDigits_append_inj h h' (List.cons.inj heq).right
  refine ⟨UInt32.toNat_inj.mp ?_, heq⟩
  have ha := a.toNat_lt
  have ha' := a'.toNat_lt
  simp only [addrByte, Nat.shiftRight_eq_div_pow] at h0 h1 h2 h3
  omega

theorem ntohs_inj (h : (ntohs v).toNat = (ntohs v').toNat) : v = v' := by
  rw [← ntohs_ntohs v, UInt16.toNat_inj.mp h, ntohs_ntohs]

-- The description is that of one connection only.
theorem sessDesc_inj (h : sessDesc key = sessDesc key') : key = key' := by
  have hcolon {s : List Char} : Separated (':' :: s) := separated_cons (by decide)
  have hspace {s : List Char} : Separated (' ' :: s) := separated_cons (by decide)
  have hclose : Separated [']'] := separated_cons (by decide)
  have heq := congrArg String.toList h
  rw [sessDesc_toList, sessDesc_toList] at heq
  obtain ⟨hsip, heq⟩ := addrText_inj hcolon hcolon (List.cons.inj heq).right
  obtain ⟨hsport, heq⟩ := toDigits_append_inj hspace hspace (List.cons.inj heq).right
  simp only [List.cons.injEq, true_and] at heq
  obtain ⟨hdip, heq⟩ := addrText_inj hcolon hcolon heq
  obtain ⟨hdport, -⟩ := toDigits_append_inj hclose hclose (List.cons.inj heq).right
  obtain ⟨sip, dip, sport, dport⟩ := key
  obtain ⟨sip', dip', sport', dport'⟩ := key'
  rw [show sip = sip' from hsip, show dip = dip' from hdip, show sport = sport' from ntohs_inj hsport,
    show dport = dport' from ntohs_inj hdport]

theorem addrText_length_le (addr : UInt32) (h : rest.length ≤ n) : (addrText addr rest).length ≤ 15 + n := by
  have hbyte (i : Nat) : (Nat.toDigits 10 (addrByte addr i)).length ≤ 3 :=
    length_toDigits_le (by decide) (Nat.lt_trans (Nat.mod_lt _ (by decide)) (by decide))
  have h0 := hbyte 0
  have h1 := hbyte 1
  have h2 := hbyte 2
  have h3 := hbyte 3
  simp only [addrText, List.length_append, List.length_cons]
  omega

theorem port_length_le (v : UInt16) (h : rest.length ≤ n) : (Nat.toDigits 10 v.toNat ++ rest).length ≤ 5 + n := by
  have hport : (Nat.toDigits 10 v.toNat).length ≤ 5 :=
    length_toDigits_le (by decide) (Nat.lt_trans v.toNat_lt (by decide))
  rw [List.length_append]
  omega

theorem sessDesc_length_le (key : SessKey) : (cstr (sessDesc key)).length ≤ 48 := by
  rw [cstr, List.length_map, sessDesc_toList]
  have cons {c : Char} {s : List Char} {n : Nat} (h : s.length ≤ n) : (c :: s).length ≤ n + 1 := Nat.succ_le_succ h
  have hclose : ([']'] : List Char).length ≤ 1 := Nat.le_refl 1
  have hdport := cons (c := ':') <| port_length_le (ntohs key.dport) hclose
  have hdip := addrText_length_le key.dip hdport
  have hsport := port_length_le (ntohs key.sport) <| cons (c := ' ') <| cons (c := '-') <| cons (c := '>') <|
    cons (c := ' ') hdip
  exact cons <| addrText_length_le key.sip <| cons (c := ':') hsport

-- A record that is not in use, or one that says which connection it belongs to.
def TnsSession.IsDescribed (sess : TnsSession) (ps : List Arrival) : Prop :=
  sess = .zero ∨ ∃ p ∈ ps, sess.key = p.sessKey ∧ sess.curDir = p.dir ∧ sess.curSessDesc = sessDesc p.key

theorem sessMustFindNode_key {skey : SessKey} {time : UInt64} {i : Fin maxSessNode}
    (h : arr.sessMustFindNode skey dir time = .ok (arr', i)) : (arr' i).key = skey.normalise dir := by
  cases hf : arr.findSess? (skey.normalise dir)
  case some k =>
    rw [SessArray.sessMustFindNode_hit hf] at h
    cases h
    have := List.find?_some hf
    simpa using this
  case none =>
    rw [SessArray.sessMustFindNode_miss <| SessArray.findSess?_eq_none_iff.mp hf] at h
    cases h
    simp

-- A packet describes the record that it is parsed for, and no other one.
theorem mainprocess_describes (h : mainprocess cJSONParse arr p = .ok (arr', o)) (j : Fin maxSessNode) :
    arr' j = arr j ∨
      (arr' j).key = p.sessKey ∧ (arr' j).curDir = p.dir ∧ (arr' j).curSessDesc = sessDesc p.key := by
  obtain ⟨found, hfound, h⟩ := bind_eq_ok.mp h
  obtain ⟨arr₁, i⟩ := found
  obtain ⟨o', ho, h⟩ := bind_eq_ok.mp h
  cases h
  by_cases hj : j = i
  case pos =>
    subst hj
    rw [Function.update_self, (tnsProtocolParse_ensures o ho).left]
    exact .inr ⟨sessMustFindNode_key hfound, rfl, rfl⟩
  case neg =>
    rw [Function.update_of_ne hj]
    exact .inl <| SessArray.sessMustFindNode_writes hfound j hj

theorem processAll_isDescribed (h : processAll cJSONParse ps = .ok (arr, log)) (i : Fin maxSessNode) :
    (arr i).IsDescribed ps := by
  induction ps using List.reverseRecOn generalizing arr log
  case nil =>
    cases h
    exact .inl rfl
  case append_singleton ps p hi =>
    obtain ⟨arr₁, log₁, o, hr, hm, -⟩ := processAll_concat_eq_ok.mp h
    cases mainprocess_describes hm i
    case inr hp => exact .inr ⟨p, by simp, hp⟩
    case inl hsame =>
      rw [hsame]
      apply (hi hr).imp_right
      rintro ⟨q, hq, hdesc⟩
      exact ⟨q, List.mem_append_left _ hq, hdesc⟩

theorem normalise_inj (h : key.normalise dir = key'.normalise dir) : key = key' := by
  obtain ⟨sip, dip, sport, dport⟩ := key
  obtain ⟨sip', dip', sport', dport'⟩ := key'
  cases dir <;> cases h <;> rfl

-- After every run a description fits into `cur_sess_desc`, with its terminator, and together with the
-- direction it says exactly which connection the session is of.
theorem processAll_described (h : processAll cJSONParse ps = .ok (arr, log)) (i : Fin maxSessNode) :
    (cstr (arr i).curSessDesc).length < 64 ∧
      (arr i = .zero ∨
        ∀ key, (arr i).curSessDesc = sessDesc key ↔ key.normalise (arr i).curDir = (arr i).key) := by
  cases processAll_isDescribed h i
  case inl hzero =>
    rw [hzero]
    exact ⟨by decide, .inl rfl⟩
  case inr hdesc =>
    obtain ⟨p, -, hkey, hdir, hdesc⟩ := hdesc
    rw [hdesc, hkey, hdir]
    refine ⟨Nat.lt_of_le_of_lt (sessDesc_length_le p.key) (by decide), .inr fun key => ?_⟩
    constructor
    case mp  => exact fun h => sessDesc_inj h ▸ rfl
    case mpr => exact fun h => normalise_inj h ▸ rfl

-- The session of a packet from the server.
theorem processAll_described_of_response :
    ∃ arr log, processAll (fun _ => none) [acceptArrival ⟨2, 1, 4, 3⟩ .response] = .ok (arr, log) ∧
      (cstr (arr 0).curSessDesc).length < 64 ∧
        (arr 0 = .zero ∨
          ∀ key, (arr 0).curSessDesc = sessDesc key ↔ key.normalise (arr 0).curDir = (arr 0).key) := by
  have h : processAll (fun _ => none) [acceptArrival ⟨2, 1, 4, 3⟩ .response] = .ok (_, _) := rfl
  exact ⟨_, _, h, processAll_described h 0⟩
