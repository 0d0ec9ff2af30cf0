import Crosswalk.Proofs.Comparisons
import Crosswalk.Proofs.ContinuedTokens
import Crosswalk.Proofs.NumberTexts
import Crosswalk.Proofs.Parsing
import Crosswalk.Proofs.SelectedNodes

/-!
# Numbers by function and by use

A comparison, an order or a minus sign reads a value as the number it stands for. The function `number` reads
the text of its argument. For nodes and texts that is the same reading. A truth value is one or zero where it
is used, but its text is a word and no number; and a number goes through its own text, which says what it
was up to the whole numbers of 64 bits.

The numbers that expressions can have are those of the format `double`: whatever is read, counted or
negated is one.
-/

namespace Crosswalk

namespace Number

variable {fmt : NumberFormat} {cs : List Char} {s : Bool} {x : Number}

/-! ## What is read is a number of the format -/

theorem isOf_zero (hrange : fmt.minExponent ≤ fmt.maxExponent) :
    IsOf fmt (finite s 0 fmt.minExponent) :=
  ⟨Nat.two_pow_pos _, fun h => absurd h (Int.lt_irrefl _), Int.le_refl _, hrange⟩

theorem isOf_ofDecimal (hp : fmt.precision ≠ 0) (hrange : fmt.minExponent ≤ fmt.maxExponent)
    (digits count : Nat) (k : Int) : IsOf fmt (ofDecimal fmt s digits count k) := by
  unfold ofDecimal
  split
  · exact isOf_zero hrange
  · split
    · trivial
    · split
      · exact isOf_zero hrange
      · cases k with
        | ofNat j => exact isOf_ofRatio _ _ Nat.one_pos hp hrange
        | negSucc j => exact isOf_ofRatio _ _ (Nat.pow_pos (by decide)) hp hrange

theorem isOf_readWord? (h : readWord? s cs = some x) : IsOf fmt x := by
  unfold readWord? at h
  dsimp only at h
  split at h
  · cases h
    trivial
  · split at h <;> cases h
    trivial

theorem isOf_readUnsigned? (hp : fmt.precision ≠ 0) (hrange : fmt.minExponent ≤ fmt.maxExponent)
    (h : readUnsigned? fmt s cs = some x) : IsOf fmt x := by
  unfold readUnsigned? at h
  split at h
  -- with a point and without one
  all_goals
    dsimp only at h
    split at h
    · exact isOf_readWord? h
    · obtain ⟨k, -, rfl⟩ := Option.map_eq_some_iff.1 h
      exact isOf_ofDecimal hp hrange _ _ _

theorem isOf_read? (h : read? .double cs = some x) : IsOf .double x := by
  unfold read? at h
  split at h <;> exact isOf_readUnsigned? (by decide) (by decide) h

theorem isOf_ofText (t : String) : IsOf .double (ofText t) := by
  rw [ofText]
  cases h : read? .double (Text.trimChars t.toList) with
  | none => trivial
  | some x => exact isOf_read? h

theorem isOf_ofNat (n : Nat) : IsOf .double (ofNat n) :=
  isOf_ofRatio _ _ Nat.one_pos (by decide) (by decide)

theorem isOf_negate (h : IsOf fmt x) : IsOf fmt x.negate := by
  cases x <;> exact h

theorem equal_iff_same {y : Number} : x.equal y = true ↔ y ≠ nan ∧ x.Same y := by
  cases y with
  | nan => cases x <;> simp [equal]
  | _ => simp [Same]

end Number

namespace XPath

open Crosswalk.Xml (Document)

variable {d : Document} {ns : Namespaces} {c : Context} {e : Expr} {v : Value} {x : Number}
  {ts rest : List Token}

/-! ## The numbers of expressions -/

/-- The numbers from which an expression can have its value are of the format `double`. -/
def Expr.OfDoubles : Expr → Prop
  | .number n => n.IsOf .double
  | .negate e => e.OfDoubles
  | _ => True

theorem Value.isOf_toNumber (h : ∀ x, v = .number x → x.IsOf .double) :
    (v.toNumber d).IsOf .double := by
  cases v with
  | number x => exact h x rfl
  | truth b => exact Number.isOf_ofNat _
  | _ => exact Number.isOf_ofText _

theorem isOf_apply {f : Function} {called : String} {arguments : List Value}
    (h : f.apply d c called arguments = .ok (.number x)) : x.IsOf .double := by
  cases f with
  | position | last | stringLength =>
    cases h
    exact Number.isOf_ofNat _
  | number =>
    cases h
    exact Number.isOf_ofText _
  | count =>
    simp only [Function.apply] at h
    split at h <;> cases h
    exact Number.isOf_ofNat _
  | name | localName =>
    obtain ⟨_, _, h⟩ := bind_eq_ok.1 h
    cases h
  | _ => cases h

theorem Expr.isOf_eval : ∀ (e : Expr) {x : Number}, e.OfDoubles → e.eval d ns c = .ok (.number x) →
    x.IsOf .double
  | .or l r, x, _, h => by obtain ⟨_, ⟨⟩⟩ := exists_truth_of_or h
  | .and l r, x, _, h => by obtain ⟨_, ⟨⟩⟩ := exists_truth_of_and h
  | .compare op l r, x, _, h => by obtain ⟨_, ⟨⟩⟩ := exists_truth_of_compare h
  | .union l r, x, _, h => by
    obtain ⟨left, -, h⟩ := bind_eq_ok.1 h
    obtain ⟨right, -, h⟩ := bind_eq_ok.1 h
    cases left <;> cases right <;> cases h
  | .negate e, x, hdoubles, h => by
    obtain ⟨v, hv, h⟩ := bind_eq_ok.1 h
    cases h
    refine Number.isOf_negate (Value.isOf_toNumber fun y hy => ?_)
    subst hy
    exact isOf_eval e hdoubles hv
  | .literal _, _, _, h => by cases h
  | .number n, x, hdoubles, h => by
    cases h
    exact hdoubles
  | .path absolute steps, x, _, h => by
    obtain ⟨_, _, h⟩ := bind_eq_ok.1 h
    cases h
  | .filter primary predicates steps, x, _, h => by
    obtain ⟨v, -, h⟩ := bind_eq_ok.1 h
    cases v with
    | nodes found =>
      obtain ⟨_, _, h⟩ := bind_eq_ok.1 h
      obtain ⟨_, _, h⟩ := bind_eq_ok.1 h
      cases h
    | _ => cases h
  | .call called arguments, x, _, h => by
    rw [Expr.eval] at h
    split at h
    · cases h
    · obtain ⟨_, _, h⟩ := bind_eq_ok.1 h
      split at h
      · obtain ⟨_, _, h⟩ := bind_eq_ok.1 h
        exact isOf_apply h
      · exact isOf_apply h

/-! ## Expressions that are read -/

theorem isOf_numberToken {run : List Char} {t : Token} (h : numberToken run = .ok t) :
    ∃ n, t = .number n ∧ n.IsOf .double := by
  rw [numberToken] at h
  split at h
  next n hn =>
    cases h
    exact ⟨n, rfl, Number.isOf_read? hn⟩
  next => cases h

theorem nameToken_ne_number {first cs left : List Char} {n : Number} :
    nameToken first cs ≠ .ok (.number n, left) := by
  intro h
  unfold nameToken at h
  split at h
  · cases h
  · cases h
  · split at h <;> cases h
  · cases h

theorem isOf_wordToken {b : Char} {cs left : List Char} {n : Number}
    (h : wordToken b cs = .ok (.number n, left)) : n.IsOf .double := by
  have hnumber {run after : List Char}
      (h : (do .ok (← numberToken run, after) : Except Fault (Token × List Char)) =
        .ok (.number n, left)) : n.IsOf .double := by
    obtain ⟨t, ht, h⟩ := bind_eq_ok.1 h
    obtain ⟨k, rfl, hk⟩ := isOf_numberToken ht
    cases h
    exact hk
  unfold wordToken at h
  split at h
  · split at h
    · exact hnumber h
    · cases h
  · split at h
    · split at h <;> cases h
    · split at h
      · exact hnumber h
      · split at h
        · exact absurd h nameToken_ne_number
        · cases h

theorem isOf_nextToken {b : Char} {cs left : List Char} {n : Number}
    (h : nextToken b cs = .ok (.number n, left)) : n.IsOf .double := by
  unfold nextToken at h
  -- every token but a word is a mark
  split at h <;> first | exact isOf_wordToken h | cases h

theorem isOf_of_mem_tokensOf {fuel : Nat} {cs : List Char} {n : Number}
    (h : tokensOf fuel cs = .ok ts) (hn : .number n ∈ ts) : n.IsOf .double := by
  induction fuel generalizing cs ts with
  | zero =>
    cases cs <;> cases h <;> cases hn
  | succ fuel ih =>
    cases cs with
    | nil =>
      cases h
      cases hn
    | cons b cs =>
      rw [tokensOf] at h
      split at h
      · exact ih h hn
      · obtain ⟨⟨t, left⟩, ht, h⟩ := bind_eq_ok.1 h
        obtain ⟨more, hmore, h⟩ := bind_eq_ok.1 h
        cases h
        rcases List.mem_cons.1 hn with rfl | hn
        · exact isOf_nextToken ht
        · exact ih hmore hn

/-- The number tokens among some are of the format. -/
def TokensFit (ts : List Token) : Prop :=
  ∀ n, .number n ∈ ts → Number.IsOf .double n

theorem TokensFit.tail {t : Token} (h : TokensFit (t :: ts)) : TokensFit ts :=
  fun n hn => h n (List.mem_cons_of_mem t hn)

theorem ofDoubles_filtered {predicates : List Expr} {steps : List Step} (h : e.OfDoubles) :
    (filtered e predicates steps).OfDoubles := by
  unfold filtered
  split
  · exact h
  · trivial

mutual

theorem LevelPhrase.ofDoubles : ∀ {level : Level} {ts rest : List Token} {e : Expr},
    LevelPhrase level ts e rest → TokensFit ts → e.OfDoubles
  | _, _, _, _, .mk operand more, h => more.ofDoubles (operand.ofDoubles h)

theorem MorePhrase.ofDoubles : ∀ {level : Level} {ts rest : List Token} {left e : Expr},
    MorePhrase level left ts e rest → left.OfDoubles → e.OfDoubles
  | _, _, _, _, _, .none .., h => h
  | _, _, _, _, _, .operator operator _ more, _ => more.ofDoubles (by cases operator <;> trivial)

theorem OperandPhrase.ofDoubles : ∀ {level : Level} {ts rest : List Token} {e : Expr},
    OperandPhrase level ts e rest → TokensFit ts → e.OfDoubles
  | _, _, _, _, .disjunction phrase, h => phrase.ofDoubles h
  | _, _, _, _, .conjunction phrase, h => phrase.ofDoubles h
  | _, _, _, _, .equality phrase, h => phrase.ofDoubles h
  | _, _, _, _, .relation phrase, h => phrase.ofDoubles h
  | _, _, _, _, .union phrase, h => phrase.ofDoubles h

theorem UnaryPhrase.ofDoubles : ∀ {ts rest : List Token} {e : Expr},
    UnaryPhrase ts e rest → TokensFit ts → e.OfDoubles
  | _, _, _, .minus phrase, h => phrase.ofDoubles h.tail
  | _, _, _, .union phrase, h => phrase.ofDoubles h

theorem PathPhrase.ofDoubles : ∀ {ts rest : List Token} {e : Expr},
    PathPhrase ts e rest → TokensFit ts → e.OfDoubles
  | _, _, _, .root .., _ | _, _, _, .absolute _, _ | _, _, _, .everywhere _, _
  | _, _, _, .relative _, _ => trivial
  | _, _, _, .filter phrase _ _, h => ofDoubles_filtered (phrase.ofDoubles h)

theorem PrimaryPhrase.ofDoubles : ∀ {ts rest : List Token} {e : Expr},
    PrimaryPhrase ts e rest → TokensFit ts → e.OfDoubles
  | _, _, _, .literal .., _ | _, _, _, .constant .., _ | _, _, _, .call .., _ => trivial
  | _, _, _, .number n _, h => h n List.mem_cons_self
  | _, _, _, .parentheses phrase, h => phrase.ofDoubles h.tail

end

/-- The numbers of an expression that is read are of the format. -/
theorem Expr.ofDoubles_of_parse {text : String} (h : Expr.parse text = .ok e) : e.OfDoubles := by
  obtain ⟨ts, hts, h⟩ := bind_eq_ok.1 h
  split at h
  · cases h
    trivial
  · exact (derives_of_ofTokens h).ofDoubles fun n hn => isOf_of_mem_tokensOf hts hn

/-! ## The function and the use -/

/-- The text of the value says which number it stands for. -/
def Value.TextTells : Value → Prop
  | .truth _ => False
  | .number x => ∀ z, x.toInt? = some z → z.natAbs ≤ 2 ^ 63
  | _ => True

/-- The text of a truth value is no number. -/
theorem Value.ofText_toText_truth (b : Bool) : Number.ofText ((truth b).toText d) = .nan := by
  have hword (b : Bool) : Number.ofText (if b then "true" else "false") = .nan := by
    cases b <;> decide +kernel
  exact hword b

theorem Value.same_toNumber_iff (h : ∀ x, v = .number x → x.IsOf .double) :
    (Number.ofText (v.toText d)).Same (v.toNumber d) ↔ v.TextTells := by
  cases v with
  | nodes ls => exact iff_of_true (Number.same_refl _) trivial
  | text t => exact iff_of_true (Number.same_refl _) trivial
  | number x => exact Number.ofText_toText_iff (h x rfl)
  | truth b =>
    have hone : Number.ofNat (if b then 1 else 0) ≠ .nan := by cases b <;> decide +kernel
    rw [ofText_toText_truth]
    exact iff_of_false (fun h => h.elim (nomatch ·) fun h => hone h.2) id

theorem eval_number (h : e.eval d ns c = .ok v) :
    (Expr.call "number" [e]).eval d ns c = .ok (.number (.ofText (v.toText d))) := by
  have harguments : evalAll d ns [e] c = .ok [v] :=
    bind_eq_ok.2 ⟨v, h, bind_eq_ok.2 ⟨[], rfl, rfl⟩⟩
  rw [Expr.eval]
  exact bind_eq_ok.2 ⟨(), rfl, bind_eq_ok.2 ⟨[v], harguments, rfl⟩⟩

theorem eval_equal_number (h : e.eval d ns c = .ok v) :
    (Expr.compare .equal (.call "number" [e]) e).eval d ns c =
      .ok (.truth ((Value.number (.ofText (v.toText d))).compare d .equal v)) :=
  eval_compare_eq_ok_iff.2 ⟨_, _, eval_number h, h, rfl⟩

/-- The function `number` gives the number that its argument is used as, unless the argument is a truth value or
a whole number beyond `2 ^ 63`. So a number is equal to what the function gives for it just if it is neither
such a whole number nor `nan`, and of the truth values `false` is. -/
theorem number_agrees_iff (hdoubles : e.OfDoubles) (h : e.eval d ns c = .ok v) :
    (∃ x, (Expr.call "number" [e]).eval d ns c = .ok (.number x) ∧
      (x.Same (v.toNumber d) ↔ v.TextTells)) ∧
    (∀ y, v = .number y →
      ((Expr.compare .equal (.call "number" [e]) e).eval d ns c = .ok (.truth true) ↔
        y ≠ .nan ∧ v.TextTells)) ∧
    ∀ b, v = .truth b →
      ((Expr.compare .equal (.call "number" [e]) e).eval d ns c = .ok (.truth true) ↔ b = false) := by
  have hsame : (Number.ofText (v.toText d)).Same (v.toNumber d) ↔ v.TextTells := by
    refine Value.same_toNumber_iff fun x hx => ?_
    subst hx
    exact e.isOf_eval hdoubles h
  refine ⟨⟨_, eval_number h, hsame⟩, fun y hy => ?_, fun b hb => ?_⟩
  · subst hy
    rw [← hsame, eval_equal_number h, Except.ok.injEq, Value.truth.injEq]
    exact Number.equal_iff_same
  · subst hb
    rw [eval_equal_number h, Value.ofText_toText_truth, Except.ok.injEq, Value.truth.injEq]
    cases b <;> simp [Value.compare, Value.compareAtoms, Value.toBool, Number.isZero, Number.isNaN]

/-- A tenth comes back from its text. -/
theorem number_agrees_iff_tenth :
    let d : Document := ⟨[]⟩
    let c : Context := ⟨.ofPath [], 1, 1⟩
    let x := Number.ofText "0.1"
    let e : Expr := .number x
    (e.OfDoubles ∧ e.eval d .builtin c = .ok (.number x)) ∧ x ≠ .nan ∧ (Value.number x).TextTells ∧
      (Expr.compare .equal (.call "number" [e]) e).eval d .builtin c = .ok (.truth true) := by
  intro d c x e
  have hparse : Expr.parse "0.1" = .ok e := by rfl
  have hdoubles := Expr.ofDoubles_of_parse hparse
  have heval : e.eval d .builtin c = .ok (.number x) := by rfl
  have hnan : x ≠ .nan := by decide +kernel
  have htells : (Value.number x).TextTells := by
    have hpart : x.toInt? = none := by decide +kernel
    intro z hz
    rw [hpart] at hz
    cases hz
  exact ⟨⟨hdoubles, heval⟩, hnan, htells,
    ((number_agrees_iff hdoubles heval).2.1 x rfl).2 ⟨hnan, htells⟩⟩

/-- The function takes `true` for no number where its use is one, and `2 ^ 64` for the largest number of 64
bits. -/
theorem number_differs_for_truth :
    let d : Document := ⟨[]⟩
    let value (text : String) : Except Fault Value :=
      Expr.parse text >>= fun e => e.eval d .builtin ⟨.ofPath [], 1, 1⟩
    (value "true()" = .ok (.truth true) ∧
      value "number(true())" = .ok (.number .nan) ∧
      value "number(true())" ≠ .ok (.number ((Value.truth true).toNumber d)) ∧
      value "number(true()) = true()" = .ok (.truth false)) ∧
    value "number(18446744073709551616) = 18446744073709551616" = .ok (.truth false) := by
  decide +kernel

end XPath

end Crosswalk
