import TnsParser.OracleTns.Checked
import TnsParser.Process.Isolation

-- Runs of `mainprocess` that end where C leaves something undefined, and when connections do not affect
-- each other in them.

open Except

def mainprocessChecked (arr : SessArray) (p : Arrival) : Except Halt (SessArray × Outcome) := do
  let (arr, i) ← halting <| arr.sessMustFindNode p.key p.dir p.time
  let sess := { arr i with curDir := p.dir, curSessDesc := sessDesc p.key }
  let o ← tnsProtocolParseChecked p.data p.len sess
  return (Function.update arr i o.sess, o)

def processAllChecked (ps : List Arrival) : Except Halt (SessArray × Log) :=
  ps.foldlM (fun (arr, log) p => do
    let (arr, o) ← mainprocessChecked arr p
    return (arr, log ++ [(p, o)])) (sessInit, [])

variable {stale : Bytes → UInt32} {arr : SessArray} {log : Log} {ps : List Arrival} {p : Arrival}

theorem mainprocessChecked_ok_iff (stale : Bytes → UInt32) {r : SessArray × Outcome} :
    mainprocessChecked arr p = .ok r ↔
      ConnectDefined p.data p.len ∧ mainprocess (cJSONParse stale) arr p = .ok r := by
  rw [mainprocessChecked, mainprocess]
  simp only [bind_eq_ok, halting_eq_ok, tnsProtocolParseChecked_ok_iff stale]
  constructor
  case mp =>
    rintro ⟨found, hfound, o, ⟨hdefined, ho⟩, hr⟩
    exact ⟨hdefined, found, hfound, o, ho, ok.inj hr ▸ rfl⟩
  case mpr =>
    rintro ⟨hdefined, found, hfound, o, ho, hr⟩
    exact ⟨found, hfound, o, ⟨hdefined, ho⟩, ok.inj hr ▸ rfl⟩

-- A run returns if and only if the connect data of all packets stay in the blocks and the run without
-- blocks returns, with the same result.
theorem processAllChecked_ok_iff (stale : Bytes → UInt32) {r : SessArray × Log} :
    processAllChecked ps = .ok r ↔
      (∀ p ∈ ps, ConnectDefined p.data p.len) ∧ processAll (cJSONParse stale) ps = .ok r := by
  induction ps using List.reverseRecOn generalizing r
  case nil =>
    refine Iff.trans ?_ (and_iff_right (List.forall_mem_nil _)).symm
    exact ⟨fun h => ok.inj h ▸ rfl, fun h => ok.inj h ▸ rfl⟩
  case append_singleton ps p hi =>
    obtain ⟨arr', log'⟩ := r
    rw [processAll_concat_eq_ok, processAllChecked, List.foldlM_append, bind_eq_ok]
    simp only [List.forall_mem_append, List.forall_mem_singleton, List.foldlM_cons, List.foldlM_nil,
      bind_eq_ok, mainprocessChecked_ok_iff stale]
    constructor
    case mp =>
      rintro ⟨⟨arr, log⟩, hr, r, ⟨⟨arr₁, o⟩, ⟨hp, hm⟩, hlog⟩, hr'⟩
      obtain ⟨hps, hr⟩ := hi.mp hr
      cases hlog
      cases hr'
      exact ⟨⟨hps, hp⟩, arr, log, o, hr, hm, rfl⟩
    case mpr =>
      rintro ⟨⟨hps, hp⟩, arr, log, o, hr, hm, rfl⟩
      exact ⟨(arr, log), hi.mpr ⟨hps, hr⟩, _, ⟨(arr', o), ⟨hp, hm⟩, rfl⟩, rfl⟩

theorem mainprocessChecked_eq (h : ConnectDefined p.data p.len) :
    mainprocessChecked arr p = halting (mainprocess (cJSONParse stale) arr p) := by
  rw [mainprocessChecked, mainprocess, halting_bind]
  refine bind_congr' _ fun found _ => ?_
  obtain ⟨arr, i⟩ := found
  dsimp only
  rw [halting_bind, tnsProtocolParseChecked_eq h]
  rfl

theorem processAllChecked_eq (h : ∀ p ∈ ps, ConnectDefined p.data p.len) :
    processAllChecked ps = halting (processAll (cJSONParse stale) ps) := by
  induction ps using List.reverseRecOn
  case nil => rfl
  case append_singleton ps p hi =>
    obtain ⟨hps, hp⟩ := List.forall_mem_append.mp h
    have hi := hi hps
    have hp (arr : SessArray) : mainprocessChecked arr p = halting (mainprocess (cJSONParse stale) arr p) :=
      mainprocessChecked_eq (hp p (List.mem_singleton_self p))
    rw [processAllChecked, processAll] at hi ⊢
    rw [List.foldlM_append, List.foldlM_append, halting_bind, hi]
    refine bind_congr' _ fun s _ => ?_
    obtain ⟨arr, log⟩ := s
    simp only [List.foldlM_cons, List.foldlM_nil, bind_pure, halting_bind,
      hp]
    rfl

-- The packets of each session have the outcomes that they have without the others.
def IsolatedChecked (ps : List Arrival) : Prop :=
  ∃ arr log, processAllChecked ps = .ok (arr, log) ∧
    ∀ key, ∃ arr' log', processAllChecked (ps.filter (·.sessKey = key)) = .ok (arr', log') ∧
      (log.ofKey key).SameAs log'

-- The packets whose connect data stay in the blocks and are complete, and whose slots are harmless.
structure AllHarmlessChecked (stale : Bytes → UInt32) (ps : List Arrival) : Prop where
  defined  : ∀ p ∈ ps, ConnectDefined p.data p.len
  complete : ∀ p ∈ ps, ¬ConnectIncomplete (cJSONParse stale) p.data p.len
  slots    : ∀ qs p arr log, qs ++ [p] <+: ps → processAllChecked qs = .ok (arr, log) →
    Harmless arr (log.own p.sessKey) p

-- The packet is long enough for all that is read of it, whatever the session.
def Arrival.IsInside (p : Arrival) : Prop :=
  ∀ sess, Avoids IsOutside (tnsProtocolParseChecked p.data p.len sess)

theorem Arrival.IsInside.longEnough (h : p.IsInside) (hp : ConnectDefined p.data p.len) :
    p.LongEnough (cJSONParse stale) :=
  fun sess => avoids_isOutside hp (h sess)

theorem isolatedChecked_iff_isolated (h : ∀ p ∈ ps, ConnectDefined p.data p.len) :
    IsolatedChecked ps ↔ Isolated (cJSONParse stale) ps := by
  have hfilter (key : SessKey) : ∀ p ∈ ps.filter (·.sessKey = key), ConnectDefined p.data p.len :=
    fun p hp => h p (List.mem_of_mem_filter hp)
  simp only [IsolatedChecked, Isolated, processAllChecked_ok_iff stale, and_iff_right h,
    and_iff_right (hfilter _)]

theorem allHarmlessChecked_iff : AllHarmlessChecked stale ps ↔
    (∀ p ∈ ps, ConnectDefined p.data p.len) ∧ AllHarmless (cJSONParse stale) ps := by
  have hstart {qs : List Arrival} {p : Arrival} (h : ∀ p ∈ ps, ConnectDefined p.data p.len)
      (hq : qs ++ [p] <+: ps) : ∀ q ∈ qs, ConnectDefined q.data q.len :=
    fun q hmem => h q (hq.subset (List.mem_append_left _ hmem))
  constructor
  case mp =>
    rintro ⟨h, hc, hs⟩
    refine ⟨h, hc, fun qs p arr log hq hr => hs qs p arr log hq ?_⟩
    exact processAllChecked_ok_iff stale |>.mpr ⟨hstart h hq, hr⟩
  case mpr =>
    rintro ⟨h, hc, hs⟩
    refine ⟨h, hc, fun qs p arr log hq hr => hs qs p arr log hq ?_⟩
    exact (processAllChecked_ok_iff stale |>.mp hr).right

-- The connections are isolated throughout a run if and only if all packets are harmless.

-- A data packet without a message.
def dataArrival (key : SessKey) (dir : Direction) : Arrival where
  data := [0, 9, 0, 0, 6, 0, 0, 0, 0]
  len  := 9
  key  := key
  dir  := dir
  time := 0

theorem acceptArrival_isInside (key : SessKey) (dir : Direction) : (acceptArrival key dir).IsInside :=
  fun _ => avoids_ok

theorem dataArrival_isInside (key : SessKey) (dir : Direction) : (dataArrival key dir).IsInside :=
  fun _ => avoids_ok

theorem resendArrival_isInside (key : SessKey) (dir : Direction) : (resendArrival key dir).IsInside :=
  fun _ => avoids_ok

-- Each packet takes the slot of the other connection, which has the same version.

-- The second is of another connection than the first, and finds its version.
