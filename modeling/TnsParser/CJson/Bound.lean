import TnsParser.CJson.Parse
import Mathlib.Data.List.TakeWhile

-- The bound on the depth of the calls is never reached: what is left of the text gets shorter.

variable {stale : Bytes → UInt32} {p q out : Bytes} {n m : Nat}

theorem skip_length_le (p : Bytes) : (skip p).length ≤ p.length :=
  List.length_dropWhile_le ..

theorem drop_length_le (n : Nat) (p : Bytes) : (p.drop n).length ≤ p.length := by
  simp

theorem digits_length_le (p : Bytes) : (p.dropWhile isDigit).length ≤ p.length :=
  List.length_dropWhile_le ..

theorem ite_length_le {c : Prop} [Decidable c] (hp : p.length ≤ n) (hq : q.length ≤ n) :
    (if c then p else q).length ≤ n := by
  split <;> assumption

theorem parseNumber_length_le (p : Bytes) : (parseNumber p).length ≤ p.length := by
  unfold parseNumber
  extract_lets minus zero int frac exp sign
  have hminus : minus.length ≤ p.length := ite_length_le (drop_length_le 1 p) (Nat.le_refl _)
  have hzero : zero.length ≤ p.length := ite_length_le (drop_length_le 1 minus |>.trans hminus) hminus
  have hint : int.length ≤ p.length := ite_length_le (digits_length_le zero |>.trans hzero) hzero
  have hfrac : frac.length ≤ p.length :=
    ite_length_le (digits_length_le _ |>.trans (drop_length_le 1 int) |>.trans hint) hint
  have hexp : exp.length ≤ p.length := drop_length_le 1 frac |>.trans hfrac
  have hsign : sign.length ≤ p.length := ite_length_le (drop_length_le 1 exp |>.trans hexp) hexp
  exact ite_length_le (digits_length_le sign |>.trans hsign) hfrac

theorem parseUtf16_length_le (p : Bytes) : (parseUtf16 stale p).2.length ≤ p.length := by
  rw [parseUtf16]
  grind

theorem parseEscape_length_le (p : Bytes) : (parseEscape stale p).2.length ≤ p.length := by
  have h : (parseUtf16 stale p).2.length ≤ p.length := parseUtf16_length_le p
  rw [parseEscape]
  grind

theorem parseStringLoop_length_le : (parseStringLoop stale n p out).2.length ≤ p.length := by
  induction n generalizing p out
  case zero      => exact Nat.le_refl _
  case succ n hi =>
    have hescape : (parseEscape stale (p.drop 1)).2.length ≤ (p.drop 1).length := parseEscape_length_le _
    rw [parseStringLoop]
    grind

theorem parseString_length_lt {r : Bytes × Bytes} (h : parseString stale p = some r) :
    r.2.length < p.length := by
  have hloop : (parseStringLoop stale p.length (p.drop 1) []).2.length ≤ (p.drop 1).length :=
    parseStringLoop_length_le
  rw [parseString] at h
  cases p
  case nil  => exact absurd h <| by simp [cchar]
  case cons => grind

-- A byte that is not null is in the text.
theorem length_drop_lt {c : UInt8} (h : p.headD 0 = c) (hc : c ≠ 0) : (p.drop 1).length < p.length := by
  cases p
  case nil  => exact absurd h.symm hc
  case cons => simp

-- What is behind the items that come after a comma, or behind the end of the items.
theorem items_length_le {x : Option (List CJson × Bytes)} {child : CJson} {close : UInt8}
    {r : List CJson × Bytes} (hx : ∀ r ∈ x, r.2.length ≤ (p.drop 1).length)
    (h : (if p.headD 0 = cchar ',' then x.bind fun r => some (child :: r.1, r.2)
      else if p.headD 0 = close then some ([child], p.drop 1) else none) = some r) :
    r.2.length ≤ p.length := by
  have hdrop := drop_length_le 1 p
  split at h
  case isTrue =>
    obtain ⟨r', hr', h⟩ := Option.bind_eq_some_iff.mp h
    cases h
    exact hx r' hr' |>.trans hdrop
  case isFalse =>
    split at h
    case isTrue =>
      cases h
      exact hdrop
    case isFalse => contradiction

theorem parse_length_le (n : Nat) :
    (∀ p r, parseValue stale n p = some r → r.2.length ≤ p.length) ∧
      (∀ p r, parseArray stale n p = some r → r.2.length ≤ p.length) ∧
        ∀ p r, parseObject stale n p = some r → r.2.length ≤ p.length := by
  have hskip := skip_length_le
  induction n
  case zero => exact ⟨nofun, nofun, nofun⟩
  case succ n hi =>
    obtain ⟨hvalue, harray, hobject⟩ := hi
    refine ⟨fun p r h => ?_, fun p r h => ?_, fun p r h => ?_⟩
    · have hnumber := parseNumber_length_le p
      have hstring (r : Bytes × Bytes) (h : parseString stale p = some r) := parseString_length_lt h
      have hinside := hskip (p.drop 1)
      have harray := harray (skip (p.drop 1))
      have hobject := hobject (skip (p.drop 1))
      rw [parseValue] at h
      grind [Option.map_eq_some_iff]
    · rw [parseArray] at h
      obtain ⟨⟨child, q⟩, hq, h⟩ := Option.bind_eq_some_iff.mp h
      calc r.2.length
        _ ≤ (skip q).length := items_length_le (fun r hr => harray _ r hr) h
        _ ≤ q.length        := hskip q
        _ ≤ (skip p).length := hvalue _ _ hq
        _ ≤ p.length        := hskip p
    · rw [parseObject] at h
      obtain ⟨⟨name, q⟩, hq, h⟩ := Option.bind_eq_some_iff.mp h
      simp only at h
      split at h
      case isTrue  => contradiction
      case isFalse =>
        obtain ⟨⟨child, q'⟩, hq', h⟩ := Option.bind_eq_some_iff.mp h
        calc r.2.length
          _ ≤ (skip q').length                 := items_length_le (fun r hr => hobject _ r hr) h
          _ ≤ q'.length                        := hskip q'
          _ ≤ (skip ((skip q).drop 1)).length  := hvalue _ _ hq'
          _ ≤ ((skip q).drop 1).length         := hskip _
          _ ≤ (skip q).length                  := drop_length_le 1 _
          _ ≤ q.length                         := hskip q
          _ ≤ (skip p).length                  := Nat.le_of_lt <| parseString_length_lt hq
          _ ≤ p.length                         := hskip p

-- What a function returns depends on the bound only by what those that it calls return for shorter texts.

theorem parseValue_congr
    (harray : ∀ q : Bytes, q.length < p.length → parseArray stale n q = parseArray stale m q)
    (hobject : ∀ q : Bytes, q.length < p.length → parseObject stale n q = parseObject stale m q) :
    parseValue stale (n + 1) p = parseValue stale (m + 1) p := by
  cases p
  case nil => simp [parseValue, cstr, cchar, isDigit]
  case cons c p =>
    have hskip : (skip p).length < (c :: p).length := Nat.lt_succ_of_le <| skip_length_le p
    simp only [parseValue, List.drop_succ_cons, List.drop_zero, harray _ hskip, hobject _ hskip]

theorem parseArray_congr
    (hvalue : ∀ q : Bytes, q.length ≤ p.length → parseValue stale n q = parseValue stale m q)
    (harray : ∀ q : Bytes, q.length < p.length → parseArray stale n q = parseArray stale m q) :
    parseArray stale (n + 1) p = parseArray stale (m + 1) p := by
  have hp := skip_length_le p
  rw [parseArray, parseArray, hvalue (skip p) hp]
  cases hq : parseValue stale m (skip p)
  case none   => rfl
  case some r =>
    have hr := (parse_length_le m).left _ _ hq
    have hskip := skip_length_le r.2
    simp only [bind, Option.bind]
    split
    case isFalse   => rfl
    case isTrue hc =>
      have hdrop := length_drop_lt hc (by decide)
      rw [harray _ (by omega)]

theorem parseObject_congr
    (hvalue : ∀ q : Bytes, q.length ≤ p.length → parseValue stale n q = parseValue stale m q)
    (hobject : ∀ q : Bytes, q.length < p.length → parseObject stale n q = parseObject stale m q) :
    parseObject stale (n + 1) p = parseObject stale (m + 1) p := by
  have hp := skip_length_le p
  rw [parseObject, parseObject]
  cases hq : parseString stale (skip p)
  case none   => rfl
  case some r =>
    have hr := parseString_length_lt hq
    have hbehind : (skip ((skip r.2).drop 1)).length ≤ r.2.length :=
      skip_length_le _ |>.trans (drop_length_le 1 _) |>.trans (skip_length_le _)
    simp only [bind, Option.bind]
    rw [hvalue _ (by omega)]
    cases hv : parseValue stale m (skip ((skip r.2).drop 1))
    case none   => rfl
    case some v =>
      have hv := (parse_length_le m).left _ _ hv
      have hskip := skip_length_le v.2
      simp only
      split
      case isTrue => rfl
      case isFalse =>
        split
        case isFalse   => rfl
        case isTrue hc =>
          have hdrop := length_drop_lt hc (by decide)
          rw [hobject _ (by omega)]

-- Bounds that are more than twice the length of the text are as good as each other.
theorem parse_congr (n : Nat) :
    (∀ m p, 2 * p.length < n → 2 * p.length < m → parseValue stale n p = parseValue stale m p) ∧
      (∀ m p, 2 * p.length + 1 < n → 2 * p.length + 1 < m →
        parseArray stale n p = parseArray stale m p) ∧
      ∀ m p, 2 * p.length + 1 < n → 2 * p.length + 1 < m →
        parseObject stale n p = parseObject stale m p := by
  induction n
  case zero => exact ⟨fun _ _ h => absurd h (by simp), fun _ _ h => absurd h (by simp),
    fun _ _ h => absurd h (by simp)⟩
  case succ n hi =>
    obtain ⟨hvalue, harray, hobject⟩ := hi
    refine ⟨fun m p hn hm => ?_, fun m p hn hm => ?_, fun m p hn hm => ?_⟩
    all_goals obtain ⟨m, rfl⟩ : ∃ k, m = k + 1 := Nat.exists_eq_add_one.mpr (by omega)
    · exact parseValue_congr (fun q hq => harray m q (by omega) (by omega))
        fun q hq => hobject m q (by omega) (by omega)
    · exact parseArray_congr (fun q hq => hvalue m q (by omega) (by omega))
        fun q hq => harray m q (by omega) (by omega)
    · exact parseObject_congr (fun q hq => hvalue m q (by omega) (by omega))
        fun q hq => hobject m q (by omega) (by omega)

-- A greater bound changes nothing.
theorem cJSONParse_congr (hn : 2 * p.length < n) :
    cJSONParse stale p = (parseValue stale n (skip p)).map (·.1) := by
  have hskip := skip_length_le p
  rw [cJSONParse, (parse_congr _).left n (skip p) (by omega) (by omega)]
