import Keyring.Proofs.Json.Node

/-!
# Only texts of a value are read as the value

The converse of how texts are read. Both machines read from left to right, so what each of them has
taken in can be said at every step: the tokenizer holds the characters of the token it is in, and
the machine with the stack holds the tokens of the containers that are open. One step adds what it
reads to what is held. Where a text breaks off, the token or the value that is left shows it, so a
complete value is only read from one of its texts.
-/

namespace Keyring.Json

/-! ## What the tokenizer holds -/

/-- The characters of a number that are read at a stage. -/
inductive Stage.Holds : Stage → Numeral → List Char → Prop
  | sign : Holds .sign ⟨true, [], [], none⟩ ['-']
  | zero (negative : Bool) : Holds .zero ⟨negative, [0], [], none⟩ (signText negative ++ ['0'])
  | whole (negative : Bool) {d : Nat} {rest : List Nat} (hpos : 0 < d) (hlt : d < 10)
    (hrest : ∀ e ∈ rest, e < 10) :
    Holds .whole ⟨negative, d :: rest, [], none⟩ (signText negative ++ (d :: rest).map digitChar)
  | point (negative : Bool) {whole : List Nat} (hwhole : Unpadded whole) :
    Holds .point ⟨negative, whole, [], none⟩ (signText negative ++ whole.map digitChar ++ ['.'])
  | fraction (negative : Bool) {whole fraction : List Nat} (hwhole : Unpadded whole)
    (hfraction : Digits fraction) :
    Holds .fraction ⟨negative, whole, fraction, none⟩
      (signText negative ++ whole.map digitChar ++ '.' :: fraction.map digitChar)
  | mark {value : Numeral} {text : List Char} (h : value.Text text) (hnone : value.exponent = none)
    {mark : Char} (hmark : isExponentMark mark) : Holds .mark value (text ++ [mark])
  | plus {value : Numeral} {text : List Char} (h : value.Text text) (hnone : value.exponent = none)
    {mark : Char} (hmark : isExponentMark mark) :
    Holds .markSign { value with exponent := some (false, []) } (text ++ [mark, '+'])
  | minus {value : Numeral} {text : List Char} (h : value.Text text) (hnone : value.exponent = none)
    {mark : Char} (hmark : isExponentMark mark) :
    Holds .markSign { value with exponent := some (true, []) } (text ++ [mark, '-'])
  | exponent {value : Numeral} {text : List Char} (h : value.Text text) (negative : Bool)
    {digits : List Nat} (hsome : value.exponent = some (negative, digits)) :
    Holds .exponent value text

/-- The characters that are read of the token the machine is in. -/
inductive Mode.Holds : Mode → List Char → Prop
  | between : Holds .between []
  | word {rest done : List Char} {token : Token} (hne : rest ≠ []) (h : token.Text (done ++ rest)) :
    Holds (.word rest token) done
  | text {pieces : List Piece} {inner : List Char} (h : PiecesText pieces.reverse inner) :
    Holds (.text pieces) ('"' :: inner)
  | escape {pieces : List Piece} {inner : List Char} (h : PiecesText pieces.reverse inner) :
    Holds (.escape pieces) ('"' :: inner ++ ['\\'])
  | unicode {pieces : List Piece} {inner : List Char} (h : PiecesText pieces.reverse inner)
    (seen : List Char) : Holds (.unicode pieces seen) ('"' :: inner ++ '\\' :: 'u' :: seen)
  | number {stage : Stage} {value : Numeral} {done : List Char} (h : stage.Holds value done) :
    Holds (.number stage value) done

/-- A token that the text does not break off. -/
def Token.Whole : Token → Prop
  | .broken _ _ => False
  | .text value => value.cut = none
  | _ => True

/-- What a step makes of the characters read so far: it stays inside a token, passes over a blank,
ends a token, or closes a number and does one of these with the character behind it. -/
inductive Accounts : List Token × Mode → List Char → Prop
  | inside {mode : Mode} {done : List Char} (h : mode.Holds done) : Accounts ([], mode) done
  | blank {c : Char} (h : isBlank c) : Accounts ([], .between) [c]
  | ended {token : Token} {done : List Char} (h : token.Text done) :
    Accounts ([token], .between) done
  | closed {value : Numeral} {done : List Char} (h : value.Text done) {c : Char}
    {step : List Token × Mode} (hstep : Accounts step [c]) :
    Accounts (.number value :: step.1, step.2) (done ++ [c])

/-! ### Steps -/

theorem digit?_eq_some {c : Char} {d : Nat} (h : digit? c = some d) : c = digitChar d ∧ d < 10 := by
  rw [digit?] at h
  split at h
  case isTrue hrange =>
    obtain ⟨hlow, hhigh⟩ := hrange
    rw [Char.le_def, UInt32.le_iff_toNat_le] at hlow hhigh
    have h48 : 48 ≤ c.toNat := hlow
    have h57 : c.toNat ≤ 57 := hhigh
    cases h
    refine ⟨?_, by omega⟩
    rw [digitChar, Nat.add_sub_cancel' h48, Char.ofNat_toNat]
  case isFalse => cases h

theorem not_whole_halt : ¬ ∀ token ∈ halt.1, token.Whole :=
  fun h => h _ List.mem_cons_self

/-- The character that opens a token. -/
theorem accounts_openToken {c : Char} (hwhole : ∀ token ∈ (openToken c).1, token.Whole) :
    Accounts (openToken c) [c] := by
  by_cases hblank : isBlank c
  · rw [openToken_of_isBlank hblank]
    exact .blank hblank
  simp only [openToken, if_neg hblank] at hwhole ⊢
  have hnil : PiecesText ([] : List Piece).reverse [] := .nil
  split at hwhole
  case h_1 => exact .ended (.delimiter rfl)
  case h_2 => exact .ended (.delimiter rfl)
  case h_3 => exact .ended (.delimiter rfl)
  case h_4 => exact .ended (.delimiter rfl)
  case h_5 => exact .ended (.delimiter rfl)
  case h_6 => exact .ended (.delimiter rfl)
  case h_7 => exact .inside (.text hnil)
  case h_8 => exact .inside (.word (List.cons_ne_nil _ _) .null)
  case h_9 => exact .inside (.word (List.cons_ne_nil _ _) .true)
  case h_10 => exact .inside (.word (List.cons_ne_nil _ _) .false)
  case h_11 => exact .inside (.number .sign)
  case h_12 => exact .inside (.number (.zero false))
  case h_13 hzero =>
    split at hwhole
    case h_1 d hd =>
      obtain ⟨rfl, hlt⟩ := digit?_eq_some hd
      have hpos : 0 < d := Nat.pos_of_ne_zero fun h => hzero (h ▸ rfl)
      exact .inside (.number (.whole false hpos hlt (List.forall_mem_nil _)))
    case h_2 => exact absurd hwhole not_whole_halt

/-- An exponent behind a number without one. -/
theorem Numeral.Text.append_exponent {value : Numeral} {text : List Char} (h : value.Text text)
    (hnone : value.exponent = none) {exponent : Option (Bool × List Nat)} {exponentText : List Char}
    (hexponent : ExponentText exponent exponentText) :
    Numeral.Text { value with exponent } (text ++ exponentText) := by
  cases h with
  | mk negative hwhole hfraction hold =>
    cases hnone
    cases hold
    rw [List.append_nil]
    exact .mk negative hwhole hfraction hexponent

theorem Digits.append {digits : List Nat} (h : Digits digits) {d : Nat} (hd : d < 10) :
    Digits (digits ++ [d]) where
  ne_nil := List.append_ne_nil_of_right_ne_nil digits (List.cons_ne_nil d [])
  lt_ten := List.forall_mem_append.2 ⟨h.lt_ten, List.forall_mem_singleton.2 hd⟩

theorem digits_singleton {d : Nat} (hd : d < 10) : Digits [d] :=
  ⟨List.cons_ne_nil d [], List.forall_mem_singleton.2 hd⟩

/-- One more digit of an exponent. -/
theorem Numeral.Text.append_exponentDigit {value : Numeral} {text : List Char} (h : value.Text text)
    {negative : Bool} {digits : List Nat} (hsome : value.exponent = some (negative, digits))
    {d : Nat} (hd : d < 10) :
    Numeral.Text { value with exponent := some (negative, digits ++ [d]) }
      (text ++ [digitChar d]) := by
  cases h with
  | mk negative hwhole hfraction hold =>
    cases hsome
    rw [List.append_assoc]
    refine .mk negative hwhole hfraction ?_
    rw [← List.map_singleton]
    cases hold with
    | plain hmark h =>
      rw [List.cons_append, ← List.map_append]
      exact .plain hmark (h.append hd)
    | plus hmark h =>
      rw [List.cons_append, List.cons_append, ← List.map_append]
      exact .plus hmark (h.append hd)
    | minus hmark h =>
      rw [List.cons_append, List.cons_append, ← List.map_append]
      exact .minus hmark (h.append hd)

/-! ### Steps inside a number -/

/-- The step behind digits that an exponent may follow. -/
def afterDigits (value : Numeral) (c : Char) : List Token × Mode :=
  if c = 'e' ∨ c = 'E' then ([], .number .mark value)
  else (.number value :: (openToken c).1, (openToken c).2)

/-- The step behind digits that a point or an exponent may follow. -/
def afterWhole (value : Numeral) (c : Char) : List Token × Mode :=
  if c = '.' then ([], .number .point value) else afterDigits value c

theorem Numeral.Text.accounts_close {value : Numeral} {text : List Char} (h : value.Text text)
    {c : Char} (hwhole : ∀ token ∈ Token.number value :: (openToken c).1, token.Whole) :
    Accounts (.number value :: (openToken c).1, (openToken c).2) (text ++ [c]) :=
  .closed h (accounts_openToken (List.forall_mem_cons.1 hwhole).2)

theorem accounts_afterDigits {value : Numeral} {text : List Char} (h : value.Text text)
    (hnone : value.exponent = none) {c : Char}
    (hwhole : ∀ token ∈ (afterDigits value c).1, token.Whole) :
    Accounts (afterDigits value c) (text ++ [c]) := by
  rw [afterDigits] at hwhole ⊢
  split at hwhole
  case isTrue hmark =>
    rw [if_pos hmark]
    exact .inside (.number (.mark h hnone hmark))
  case isFalse hmark =>
    rw [if_neg hmark]
    exact h.accounts_close hwhole

theorem text_integer (negative : Bool) {whole : List Nat} (h : Unpadded whole) :
    Numeral.Text ⟨negative, whole, [], none⟩ (signText negative ++ whole.map digitChar) := by
  have htext := Numeral.Text.mk negative h .none .none
  rwa [List.append_nil, List.append_nil] at htext

theorem accounts_afterWhole {negative : Bool} {whole : List Nat} (h : Unpadded whole) {c : Char}
    (hwhole : ∀ token ∈ (afterWhole ⟨negative, whole, [], none⟩ c).1, token.Whole) :
    Accounts (afterWhole ⟨negative, whole, [], none⟩ c)
      (signText negative ++ whole.map digitChar ++ [c]) := by
  rw [afterWhole] at hwhole ⊢
  split at hwhole
  case isTrue hpoint =>
    subst hpoint
    exact .inside (.number (.point negative h))
  case isFalse hpoint =>
    rw [if_neg hpoint]
    exact accounts_afterDigits (text_integer negative h) rfl hwhole

theorem accounts_zero {negative : Bool} {c : Char}
    (hwhole : ∀ token ∈ (numberStep .zero ⟨negative, [0], [], none⟩ c).1, token.Whole) :
    Accounts (numberStep .zero ⟨negative, [0], [], none⟩ c)
      (signText negative ++ ['0'] ++ [c]) := by
  have hstep : numberStep .zero ⟨negative, [0], [], none⟩ c =
      if (digit? c).isSome then halt else afterWhole ⟨negative, [0], [], none⟩ c := rfl
  rw [hstep] at hwhole ⊢
  split at hwhole
  case isTrue => exact absurd hwhole not_whole_halt
  case isFalse hdigit =>
    rw [if_neg hdigit]
    exact accounts_afterWhole .zero hwhole

theorem accounts_whole {negative : Bool} {d : Nat} {rest : List Nat} (hpos : 0 < d) (hlt : d < 10)
    (hrest : ∀ e ∈ rest, e < 10) {c : Char}
    (hwhole : ∀ token ∈ (numberStep .whole ⟨negative, d :: rest, [], none⟩ c).1, token.Whole) :
    Accounts (numberStep .whole ⟨negative, d :: rest, [], none⟩ c)
      (signText negative ++ (d :: rest).map digitChar ++ [c]) := by
  cases hdigit : digit? c with
  | none =>
    have hstep : numberStep .whole ⟨negative, d :: rest, [], none⟩ c =
        afterWhole ⟨negative, d :: rest, [], none⟩ c := by
      simp only [numberStep, hdigit, afterWhole, afterDigits]
    rw [hstep] at hwhole ⊢
    exact accounts_afterWhole (.leading hpos hlt hrest) hwhole
  | some e =>
    obtain ⟨rfl, he⟩ := digit?_eq_some hdigit
    have hall : ∀ f ∈ rest ++ [e], f < 10 :=
      List.forall_mem_append.2 ⟨hrest, List.forall_mem_singleton.2 he⟩
    have hnext := Stage.Holds.whole negative hpos hlt hall
    rw [← List.cons_append, List.map_append, List.map_singleton, ← List.append_assoc] at hnext
    simp only [numberStep, hdigit]
    exact .inside (.number hnext)

theorem accounts_fraction {negative : Bool} {whole fraction : List Nat} (h : Unpadded whole)
    (hfraction : Digits fraction) {c : Char}
    (hwhole : ∀ token ∈ (numberStep .fraction ⟨negative, whole, fraction, none⟩ c).1, token.Whole) :
    Accounts (numberStep .fraction ⟨negative, whole, fraction, none⟩ c)
      (signText negative ++ whole.map digitChar ++ '.' :: fraction.map digitChar ++ [c]) := by
  cases hdigit : digit? c with
  | none =>
    have htext := Numeral.Text.mk negative h (.some hfraction) .none
    rw [List.append_nil] at htext
    have hstep : numberStep .fraction ⟨negative, whole, fraction, none⟩ c =
        afterDigits ⟨negative, whole, fraction, none⟩ c := by
      simp only [numberStep, hdigit, afterDigits]
    rw [hstep] at hwhole ⊢
    exact accounts_afterDigits htext rfl hwhole
  | some d =>
    obtain ⟨rfl, hlt⟩ := digit?_eq_some hdigit
    have hnext := Stage.Holds.fraction negative h (hfraction.append hlt)
    rw [List.map_append, List.map_singleton, ← List.cons_append, ← List.append_assoc] at hnext
    simp only [numberStep, hdigit]
    exact .inside (.number hnext)

/-- The first digit of an exponent, behind its mark and sign. -/
theorem accounts_firstExponentDigit {value : Numeral} {text : List Char} (h : value.Text text)
    (hnone : value.exponent = none) {negative : Bool} {d : Nat} {sign : List Char}
    (hsign : ExponentText (some (negative, [d])) (sign ++ [digitChar d])) :
    Accounts ([], .number .exponent { value with exponent := some (negative, [d]) })
      (text ++ sign ++ [digitChar d]) := by
  have htext := h.append_exponent hnone hsign
  rw [← List.append_assoc] at htext
  exact .inside (.number (.exponent htext negative rfl))

theorem accounts_mark {value : Numeral} {text : List Char} (h : value.Text text)
    (hnone : value.exponent = none) {mark : Char} (hmark : isExponentMark mark) {c : Char}
    (hwhole : ∀ token ∈ (numberStep .mark value c).1, token.Whole) :
    Accounts (numberStep .mark value c) (text ++ [mark] ++ [c]) := by
  rw [numberStep] at hwhole ⊢
  split at hwhole
  case isTrue hplus =>
    subst hplus
    rw [List.append_assoc]
    exact .inside (.number (.plus h hnone hmark))
  case isFalse hplus =>
    rw [if_neg hplus]
    split at hwhole
    case isTrue hminus =>
      subst hminus
      rw [List.append_assoc]
      exact .inside (.number (.minus h hnone hmark))
    case isFalse hminus =>
      rw [if_neg hminus]
      cases hdigit : digit? c with
      | none =>
        rw [hdigit] at hwhole
        exact absurd hwhole not_whole_halt
      | some d =>
        obtain ⟨rfl, hlt⟩ := digit?_eq_some hdigit
        show Accounts ([], .number .exponent (value.addExponentDigit d)) _
        rw [Numeral.addExponentDigit, hnone]
        exact accounts_firstExponentDigit h hnone (.plain hmark (digits_singleton hlt))

theorem accounts_markSign {value : Numeral} {text : List Char} (h : value.Text text)
    (hnone : value.exponent = none) {negative : Bool} {sign : List Char}
    (hsign : ∀ d < 10, ExponentText (some (negative, [d])) (sign ++ [digitChar d])) {c : Char}
    (hwhole : ∀ token ∈ (numberStep .markSign { value with exponent := some (negative, []) } c).1,
      token.Whole) :
    Accounts (numberStep .markSign { value with exponent := some (negative, []) } c)
      (text ++ sign ++ [c]) := by
  rw [numberStep] at hwhole ⊢
  cases hdigit : digit? c with
  | none =>
    rw [hdigit] at hwhole
    exact absurd hwhole not_whole_halt
  | some d =>
    obtain ⟨rfl, hlt⟩ := digit?_eq_some hdigit
    exact accounts_firstExponentDigit h hnone (hsign d hlt)

theorem accounts_exponent {value : Numeral} {text : List Char} (h : value.Text text)
    {negative : Bool} {digits : List Nat} (hsome : value.exponent = some (negative, digits))
    {c : Char} (hwhole : ∀ token ∈ (numberStep .exponent value c).1, token.Whole) :
    Accounts (numberStep .exponent value c) (text ++ [c]) := by
  rw [numberStep] at hwhole ⊢
  cases hdigit : digit? c with
  | none =>
    rw [hdigit] at hwhole
    exact h.accounts_close hwhole
  | some d =>
    obtain ⟨rfl, hlt⟩ := digit?_eq_some hdigit
    show Accounts ([], .number .exponent (value.addExponentDigit d)) _
    rw [Numeral.addExponentDigit, hsome]
    exact .inside (.number (.exponent (h.append_exponentDigit hsome hlt) negative rfl))

theorem Stage.Holds.accounts {stage : Stage} {value : Numeral} {done : List Char}
    (h : stage.Holds value done) {c : Char}
    (hwhole : ∀ token ∈ (numberStep stage value c).1, token.Whole) :
    Accounts (numberStep stage value c) (done ++ [c]) := by
  cases h with
  | sign =>
    rw [numberStep] at hwhole ⊢
    cases hdigit : digit? c with
    | none =>
      rw [hdigit] at hwhole
      exact absurd hwhole not_whole_halt
    | some d =>
      obtain ⟨rfl, hlt⟩ := digit?_eq_some hdigit
      cases d with
      | zero => exact .inside (.number (.zero true))
      | succ d => exact .inside (.number (.whole true d.succ_pos hlt (List.forall_mem_nil _)))
  | zero negative => exact accounts_zero hwhole
  | whole negative hpos hlt hrest => exact accounts_whole hpos hlt hrest hwhole
  | point negative hdigits =>
    rw [numberStep] at hwhole ⊢
    cases hdigit : digit? c with
    | none =>
      rw [hdigit] at hwhole
      exact absurd hwhole not_whole_halt
    | some d =>
      obtain ⟨rfl, hlt⟩ := digit?_eq_some hdigit
      rw [List.append_assoc]
      exact .inside (.number (.fraction negative hdigits (digits_singleton hlt)))
  | fraction negative hdigits hfraction => exact accounts_fraction hdigits hfraction hwhole
  | mark htext hnone hmark => exact accounts_mark htext hnone hmark hwhole
  | plus htext hnone hmark =>
    exact accounts_markSign htext hnone (fun _ hd => .plus hmark (digits_singleton hd)) hwhole
  | minus htext hnone hmark =>
    exact accounts_markSign htext hnone (fun _ hd => .minus hmark (digits_singleton hd)) hwhole
  | exponent htext negative hsome => exact accounts_exponent htext hsome hwhole

/-! ### Steps inside a string -/

theorem PiecesText.snoc_reverse {pieces : List Piece} {inner : List Char}
    (h : PiecesText pieces.reverse inner) {piece : Piece} {chars : List Char}
    (hpiece : piece.Text chars) : PiecesText (piece :: pieces).reverse (inner ++ chars) := by
  rw [List.reverse_cons]
  exact .snoc h hpiece

/-- Pieces that the text breaks off leave a token that shows it. -/
theorem not_whole_cutText (pieces : List Piece) (stop : Stop) : ¬ (cutText pieces stop).Whole :=
  nofun

theorem accounts_text {pieces : List Piece} {inner : List Char}
    (h : PiecesText pieces.reverse inner) {c : Char}
    (hwhole : ∀ token ∈ ((Mode.text pieces).step c).1, token.Whole) :
    Accounts ((Mode.text pieces).step c) ('"' :: inner ++ [c]) := by
  rw [Mode.step] at hwhole ⊢
  split at hwhole
  case isTrue hquote =>
    subst hquote
    exact .ended (.text h)
  case isFalse hquote =>
    rw [if_neg hquote]
    split at hwhole
    case isTrue hescape =>
      subst hescape
      exact .inside (.escape h)
    case isFalse hescape =>
      rw [if_neg hescape]
      split at hwhole
      case isTrue => exact absurd (hwhole _ List.mem_cons_self) (not_whole_cutText _ _)
      case isFalse hcontrol =>
        rw [if_neg hcontrol]
        exact .inside (.text (h.snoc_reverse (.plain hquote hescape (Nat.not_lt.1 hcontrol))))

theorem accounts_escape {pieces : List Piece} {inner : List Char}
    (h : PiecesText pieces.reverse inner) {c : Char}
    (hwhole : ∀ token ∈ ((Mode.escape pieces).step c).1, token.Whole) :
    Accounts ((Mode.escape pieces).step c) ('"' :: inner ++ ['\\'] ++ [c]) := by
  rw [List.append_assoc, Mode.step] at *
  split at hwhole
  case isTrue hu =>
    subst hu
    exact .inside (.unicode h [])
  case isFalse hu =>
    rw [if_neg hu]
    cases hescaped : escaped? c with
    | none =>
      rw [hescaped] at hwhole
      exact absurd (hwhole _ List.mem_cons_self) (not_whole_cutText _ _)
    | some d => exact .inside (.text (h.snoc_reverse (.letter hescaped)))

theorem accounts_unicode {pieces : List Piece} {inner : List Char}
    (h : PiecesText pieces.reverse inner) {seen : List Char} {c : Char}
    (hwhole : ∀ token ∈ (unicodeStep pieces seen c).1, token.Whole) :
    Accounts (unicodeStep pieces seen c) ('"' :: inner ++ '\\' :: 'u' :: seen ++ [c]) := by
  have hdone : '"' :: inner ++ '\\' :: 'u' :: seen ++ [c] =
      '"' :: (inner ++ '\\' :: 'u' :: (seen ++ [c])) := by simp
  rw [hdone]
  simp only [unicodeStep] at hwhole ⊢
  split at hwhole
  case isTrue hshort =>
    rw [if_pos hshort]
    exact .inside (.unicode h (seen ++ [c]))
  case isFalse hlong =>
    rw [if_neg hlong]
    cases hunit : unit? (seen ++ [c]) with
    | none =>
      rw [hunit] at hwhole
      exact absurd (hwhole _ List.mem_cons_self) (not_whole_cutText _ _)
    | some u =>
      obtain ⟨hlength, -⟩ := unit?_eq_some hunit
      obtain ⟨p, q, r, s, hdigits⟩ := List.length_eq_four.1 hlength
      rw [hdigits] at hunit ⊢
      exact .inside (.text (h.snoc_reverse (.unit hunit)))

/-! ### Whole texts -/

theorem Mode.Holds.accounts {mode : Mode} {done : List Char} (h : mode.Holds done) {c : Char}
    (hwhole : ∀ token ∈ (mode.step c).1, token.Whole) : Accounts (mode.step c) (done ++ [c]) := by
  cases h with
  | between => exact accounts_openToken hwhole
  | @word rest done token hne h =>
    cases rest with
    | nil => exact absurd rfl hne
    | cons d rest =>
      rw [Mode.step] at hwhole ⊢
      split at hwhole
      case isTrue => exact absurd hwhole not_whole_halt
      case isFalse hc =>
        rw [if_neg hc]
        obtain rfl : c = d := not_not.1 hc
        cases rest with
        | nil => exact .ended h
        | cons e rest =>
          have hnext : token.Text (done ++ [c] ++ e :: rest) := by
            rwa [List.append_assoc]
          exact .inside (.word (List.cons_ne_nil _ _) hnext)
  | text h => exact accounts_text h hwhole
  | escape h => exact accounts_escape h hwhole
  | unicode h seen => exact accounts_unicode h hwhole
  | number h => exact h.accounts hwhole

/-- What a step accounts for is followed by what the machine makes of the rest of the text. -/
theorem Accounts.tokensText {step : List Token × Mode} {done : List Char} (h : Accounts step done)
    {rest : List Char}
    (hrest : ∀ done, step.2.Holds done → TokensText (step.2.run rest) (done ++ rest)) :
    TokensText (step.1 ++ step.2.run rest) (done ++ rest) := by
  have hblank : Blank [] := nofun
  induction h with
  | inside h => exact hrest _ h
  | blank hc => exact (hrest [] .between).blanks_append (List.forall_mem_singleton.2 hc)
  | ended htoken => exact .cons hblank htoken (hrest [] .between)
  | closed hvalue _ ih =>
    rw [List.append_assoc]
    exact .cons hblank (.number hvalue) (ih hrest)

/-- The tokens that the end of the text completes. -/
theorem Mode.Holds.tokensText_finish {mode : Mode} {done : List Char} (h : mode.Holds done)
    (hwhole : ∀ token ∈ mode.finish, token.Whole) : TokensText mode.finish done := by
  have hblank : Blank [] := nofun
  have hnumber {value : Numeral} {text : List Char} (h : value.Text text) :
      TokensText [.number value] text := by
    have hsingle := TokensText.cons hblank (.number h) (.nil hblank)
    rwa [List.append_nil] at hsingle
  cases h with
  | between => exact .nil hblank
  | @word rest done token hne h =>
    cases rest with
    | nil => exact absurd rfl hne
    | cons d rest => exact absurd (hwhole _ List.mem_cons_self) id
  | text | escape | unicode =>
    exact absurd (hwhole _ List.mem_cons_self) (not_whole_cutText _ _)
  | number h =>
    cases h with
    | sign | point | mark | plus | minus => exact absurd (hwhole _ List.mem_cons_self) id
    | zero negative => exact hnumber (text_integer negative .zero)
    | whole negative hpos hlt hrest =>
      exact hnumber (text_integer negative (.leading hpos hlt hrest))
    | fraction negative hdigits hfraction =>
      have htext := Numeral.Text.mk negative hdigits (.some hfraction) .none
      rw [List.append_nil] at htext
      exact hnumber htext
    | exponent htext => exact hnumber htext

theorem Mode.Holds.tokensText {mode : Mode} {done text : List Char} (h : mode.Holds done)
    (hwhole : ∀ token ∈ mode.run text, token.Whole) :
    TokensText (mode.run text) (done ++ text) := by
  induction text generalizing mode done with
  | nil =>
    rw [List.append_nil]
    exact h.tokensText_finish hwhole
  | cons c text ih =>
    have hrun : mode.run (c :: text) = (mode.step c).1 ++ (mode.step c).2.run text := rfl
    rw [hrun, List.forall_mem_append] at hwhole
    have hnext := (h.accounts hwhole.1).tokensText fun done hdone => ih hdone hwhole.2
    rw [List.append_assoc] at hnext
    exact hnext

/-- A text that breaks no token off is a text of its tokens. -/
theorem tokensText_tokens {text : List Char} (hwhole : ∀ token ∈ tokens text, token.Whole) :
    TokensText (tokens text) text :=
  Mode.Holds.between.tokensText hwhole

/-! ## What the machine with the stack holds -/

/-- Lists of tokens with a comma behind each. -/
def commaEnded (lists : List (List Token)) : List Token :=
  lists.flatMap (· ++ [.comma])

/-- The tokens that are read of an open container. -/
def Frame.tokens : Frame → List Token
  | .array items => .beginArray :: commaEnded (items.reverse.map Node.tokens)
  | .object members key =>
    .beginObject :: commaEnded (members.reverse.map memberTokensOf) ++ [.text key, .colon]

/-- The tokens that are read of all open containers, the innermost of which comes first. -/
def frameTokens : List Frame → List Token
  | [] => []
  | frame :: outer => frameTokens outer ++ frame.tokens

/-- The tokens that are read of the container that is not in the stack. -/
def Position.tokens : Position → List Token
  | .value => []
  | .firstItem => [.beginArray]
  | .afterItem items => .beginArray :: commaSeparated (items.reverse.map Node.tokens)
  | .firstKey => [.beginObject]
  | .nextKey members => .beginObject :: commaEnded (members.reverse.map memberTokensOf)
  | .colon members key =>
    .beginObject :: commaEnded (members.reverse.map memberTokensOf) ++ [.text key]
  | .afterMember members =>
    .beginObject :: commaSeparated (members.reverse.map memberTokensOf)

/-- Members that nothing breaks off. -/
def CompleteMembers (members : List (Spelling × Node)) : Prop :=
  ∀ member ∈ members, member.1.cut = none ∧ member.2.Complete

def Frame.Complete : Frame → Prop
  | .array items => ∀ item ∈ items, item.Complete
  | .object members key => CompleteMembers members ∧ key.cut = none

def Position.Complete : Position → Prop
  | .value | .firstItem | .firstKey => True
  | .afterItem items => items ≠ [] ∧ ∀ item ∈ items, item.Complete
  | .nextKey members => CompleteMembers members
  | .colon members key => CompleteMembers members ∧ key.cut = none
  | .afterMember members => members ≠ [] ∧ CompleteMembers members

/-- What has been read when the machine has taken in a list of tokens. Where nothing stops a reader
that passes over the node that is done, it is complete and has just these tokens. -/
def Progress.Holds (list : List Token) : Progress → Prop
  | .inside frames position =>
    (∀ frame ∈ frames, frame.Complete) ∧ position.Complete ∧
      frameTokens frames ++ position.tokens = list
  | .done node => node.skipStop? = none → node.Complete ∧ node.tokens = list

theorem commaSeparated_concat (lists : List (List Token)) (last : List Token) :
    commaSeparated (lists ++ [last]) = commaEnded lists ++ last := by
  induction lists with
  | nil => rfl
  | cons first rest ih =>
    have hne : rest ++ [last] ≠ [] := List.append_ne_nil_of_right_ne_nil rest (by simp)
    rw [List.cons_append, commaSeparated.eq_3 first _ hne, ih, commaEnded, commaEnded,
      List.flatMap_cons, List.append_assoc, List.append_assoc, List.singleton_append]

theorem commaEnded_concat (lists : List (List Token)) (last : List Token) :
    commaEnded (lists ++ [last]) = commaSeparated (lists ++ [last]) ++ [.comma] := by
  rw [commaSeparated_concat, commaEnded, commaEnded, List.flatMap_append, List.flatMap_singleton,
    List.append_assoc]

/-- Behind at least one list of tokens, a comma makes those that are separated ended. -/
theorem commaEnded_eq {α : Type} {list : List α} (hne : list ≠ []) (toTokens : α → List Token) :
    commaEnded (list.reverse.map toTokens) =
      commaSeparated (list.reverse.map toTokens) ++ [.comma] := by
  cases list with
  | nil => exact absurd rfl hne
  | cons last list =>
    rw [List.reverse_cons, List.map_append, List.map_singleton, commaEnded_concat]

/-! ### Steps -/

theorem skipStop?_cutAll {stop : Stop} {node : Node} (h : node.skipStop? = some stop)
    (frames : List Frame) : (cutAll stop frames node).skipStop? = some stop := by
  induction frames generalizing node with
  | nil => exact h
  | cons frame frames ih =>
    show (cutAll stop frames (frame.cut stop node)).skipStop? = some stop
    apply ih
    cases frame with
    | array | object => rfl

/-- The node of a text that ends too early shows it. -/
theorem skipStop?_cutShort (frames : List Frame) (position : Position) :
    (cutShort frames position).skipStop? = some .truncated := by
  apply skipStop?_cutAll
  cases position with
  | value | firstItem | afterItem | firstKey | nextKey | colon | afterMember => rfl

/-- A node that breaks off needs nothing to hold. -/
theorem Progress.holds_cutAll {stop : Stop} {node : Node} (h : node.skipStop? = some stop)
    (frames : List Frame) (list : List Token) :
    (Progress.done (cutAll stop frames node)).Holds list := by
  intro hnone
  rw [skipStop?_cutAll h frames] at hnone
  cases hnone

section

variable {frames : List Frame} (hframes : ∀ frame ∈ frames, frame.Complete)
include hframes

theorem holds_place {node : Node} (hnode : node.Complete) :
    (place frames node).Holds (frameTokens frames ++ node.tokens) := by
  cases frames with
  | nil => exact fun _ => ⟨hnode, rfl⟩
  | cons frame outer =>
    obtain ⟨hframe, houter⟩ := List.forall_mem_cons.1 hframes
    cases frame with
    | array items =>
      refine ⟨houter, ⟨List.cons_ne_nil node items, List.forall_mem_cons.2 ⟨hnode, hframe⟩⟩, ?_⟩
      rw [Position.tokens, frameTokens, Frame.tokens, List.reverse_cons, List.map_append,
        List.map_singleton, commaSeparated_concat, List.append_assoc, List.cons_append]
    | object members key =>
      obtain ⟨hmembers, hkey⟩ := hframe
      refine ⟨houter,
        ⟨List.cons_ne_nil _ members, List.forall_mem_cons.2 ⟨⟨hkey, hnode⟩, hmembers⟩⟩, ?_⟩
      rw [Position.tokens, frameTokens, Frame.tokens, List.reverse_cons, List.map_append,
        List.map_singleton, commaSeparated_concat, memberTokensOf]
      simp only [List.append_assoc, List.cons_append, List.nil_append]

theorem holds_openValue (token : Token) :
    (openValue frames token).Holds (frameTokens frames ++ [token]) := by
  cases token with
  | null => exact holds_place hframes .null
  | bool value => exact holds_place hframes (.bool value)
  | number value => exact holds_place hframes (.number value)
  | text value =>
    rw [openValue]
    cases hcut : value.cut with
    | none => exact holds_place hframes (.text hcut)
    | some stop =>
      have hstop : (Node.text value).skipStop? = some stop := hcut
      exact Progress.holds_cutAll hstop frames _
  | beginArray => exact ⟨hframes, trivial, rfl⟩
  | beginObject => exact ⟨hframes, trivial, rfl⟩
  | broken read skipped => exact Progress.holds_cutAll rfl frames _
  | endArray | endObject | colon | comma => exact Progress.holds_cutAll rfl frames _

theorem holds_openMember {members : List (Spelling × Node)} (hmembers : CompleteMembers members)
    (token : Token) :
    (openMember frames members token).Holds
      (frameTokens frames ++ (.beginObject :: commaEnded (members.reverse.map memberTokensOf)) ++
        [token]) := by
  cases token with
  | text key =>
    rw [openMember]
    cases hcut : key.cut with
    | none => exact ⟨hframes, ⟨hmembers, hcut⟩, (List.append_assoc _ _ _).symm⟩
    | some stop => exact Progress.holds_cutAll rfl frames _
  | beginObject | endObject | beginArray | endArray | colon | comma | null | bool | number
  | broken => exact Progress.holds_cutAll rfl frames _

/-- One token more is read. -/
theorem holds_advance {position : Position} (hposition : position.Complete) (token : Token) :
    (advance frames position token).Holds (frameTokens frames ++ position.tokens ++ [token]) := by
  cases position with
  | value =>
    rw [Position.tokens, List.append_nil]
    exact holds_openValue hframes token
  | firstItem =>
    rw [advance]
    split
    case isTrue hend =>
      subst hend
      rw [List.append_assoc]
      exact holds_place hframes (.array (List.forall_mem_nil _))
    case isFalse =>
      have hinner : ∀ frame ∈ .array [] :: frames, frame.Complete :=
        List.forall_mem_cons.2 ⟨List.forall_mem_nil _, hframes⟩
      exact holds_openValue hinner token
  | afterItem items =>
    obtain ⟨hne, hitems⟩ := hposition
    cases token with
    | comma =>
      refine ⟨List.forall_mem_cons.2 ⟨hitems, hframes⟩, trivial, ?_⟩
      rw [frameTokens, Frame.tokens, commaEnded_eq hne, Position.tokens, Position.tokens,
        List.append_nil, List.append_assoc, List.cons_append]
    | endArray =>
      have hall : ∀ item ∈ items.reverse, item.Complete :=
        fun item hitem => hitems item (List.mem_reverse.1 hitem)
      have hplace := holds_place hframes (.array hall)
      rwa [Node.tokens, itemTokens_eq_map, ← List.append_assoc] at hplace
    | beginObject | endObject | beginArray | colon | null | bool | number | text | broken =>
      exact Progress.holds_cutAll rfl frames _
  | firstKey =>
    rw [advance]
    split
    case isTrue hend =>
      subst hend
      rw [List.append_assoc]
      exact holds_place hframes (.object (List.forall_mem_nil _) (List.forall_mem_nil _))
    case isFalse => exact holds_openMember hframes (List.forall_mem_nil _) token
  | nextKey members => exact holds_openMember hframes hposition token
  | colon members key =>
    rw [advance]
    split
    case isTrue hcolon =>
      subst hcolon
      refine ⟨List.forall_mem_cons.2 ⟨hposition, hframes⟩, trivial, ?_⟩
      rw [frameTokens, Frame.tokens, Position.tokens, Position.tokens, List.append_nil,
        List.append_assoc, List.append_assoc, List.singleton_append]
    case isFalse => exact Progress.holds_cutAll rfl frames _
  | afterMember members =>
    obtain ⟨hne, hmembers⟩ := hposition
    cases token with
    | comma =>
      refine ⟨hframes, hmembers, ?_⟩
      rw [Position.tokens, Position.tokens, commaEnded_eq hne, List.append_assoc, List.cons_append]
    | endObject =>
      have hall (member : Spelling × Node) (hmember : member ∈ members.reverse) :=
        hmembers member (List.mem_reverse.1 hmember)
      have hplace := holds_place hframes
        (.object (fun member h => (hall member h).1) fun member h => (hall member h).2)
      rwa [Node.tokens, memberTokens_eq_map, ← List.append_assoc] at hplace
    | beginObject | beginArray | endArray | colon | null | bool | number | text | broken =>
      exact Progress.holds_cutAll rfl frames _

end

/-- What is left is a complete value with the tokens that were read, or shows where it breaks
off. -/
theorem complete_of_build {frames : List Frame} {position : Position} {list : List Token}
    (hframes : ∀ frame ∈ frames, frame.Complete) (hposition : position.Complete) {node : Node}
    (h : build frames position list = (node, [])) (hnone : node.skipStop? = none) :
    node.Complete ∧ node.tokens = frameTokens frames ++ position.tokens ++ list := by
  induction list generalizing frames position with
  | nil =>
    cases h
    rw [skipStop?_cutShort] at hnone
    cases hnone
  | cons token list ih =>
    have hholds := holds_advance hframes hposition token
    rw [build_cons] at h
    cases hadvance : advance frames position token with
    | inside frames' position' =>
      rw [hadvance] at h hholds
      obtain ⟨hframes', hposition', htokens⟩ := hholds
      obtain ⟨hcomplete, hnode⟩ := ih hframes' hposition' h
      rw [htokens, List.append_assoc _ [token], List.singleton_append] at hnode
      exact ⟨hcomplete, hnode⟩
    | done result =>
      rw [hadvance] at h hholds
      cases h
      exact hholds hnone

/-! ## Values and their texts -/

theorem Node.Complete.whole {node : Node} (h : node.Complete) :
    ∀ token ∈ node.tokens, token.Whole := by
  induction h with
  | null | bool | number => exact List.forall_mem_singleton.2 trivial
  | text h => exact List.forall_mem_singleton.2 h
  | array _ ih =>
    rw [Node.tokens, itemTokens_eq_map]
    exact forall_mem_bracket trivial trivial trivial (List.forall_mem_map.2 ih)
  | object hkeys _ ih =>
    rw [Node.tokens, memberTokens_eq_map]
    refine forall_mem_bracket trivial trivial trivial (List.forall_mem_map.2 ?_)
    intro member hmember
    exact List.forall_mem_cons.2
      ⟨hkeys member hmember, List.forall_mem_cons.2 ⟨trivial, ih member hmember⟩⟩

/-- **A text is read as a complete value exactly when it is one of the texts of the value.** -/
theorem text_iff_ofText_eq {node : Node} {text : List Char} :
    node.Text text ↔ Node.ofText text = (node, []) ∧ node.skipStop? = none := by
  constructor
  · intro h
    exact ⟨h.ofText_eq, h.complete.skipStop?⟩
  · rintro ⟨hread, hnone⟩
    have hframes : ∀ frame ∈ ([] : List Frame), frame.Complete := List.forall_mem_nil _
    have hvalue : Position.value.Complete := trivial
    obtain ⟨hcomplete, htokens⟩ := complete_of_build hframes hvalue hread hnone
    refine ⟨hcomplete, ?_⟩
    have hwhole := hcomplete.whole
    rw [htokens] at hwhole ⊢
    exact tokensText_tokens hwhole

end Keyring.Json
