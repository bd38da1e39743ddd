import Mathlib.Data.List.Chain
import Keyring.Proofs.Json.Grammar

/-!
# Texts are cut into their tokens

A token ends by itself or, if it is a number, at a character that cannot continue a number. So the
machine cuts the text of several tokens into just these tokens as long as no two values stand next
to each other. Blanks leave the machine where it is.
-/

namespace Keyring.Json

/-! ## What a number ends at -/

/-- Characters that extend a number. -/
def continuesNumber (c : Char) : Bool :=
  (digit? c).isSome || c == '.' || c == 'e' || c == 'E'

/-- A number just before this text is complete. -/
def ClosesNumber (text : List Char) : Prop :=
  ∀ c ∈ text.head?, continuesNumber c = false

theorem closesNumber_nil : ClosesNumber [] := nofun

theorem closesNumber_cons {c : Char} (h : continuesNumber c = false) (rest : List Char) :
    ClosesNumber (c :: rest) := by
  intro d hd
  cases hd
  exact h

theorem continuesNumber_of_isBlank {c : Char} (h : isBlank c) : continuesNumber c = false := by
  simp only [isBlank, Bool.or_eq_true, beq_iff_eq] at h
  rcases h with ((rfl | rfl) | rfl) | rfl
  all_goals rfl

/-! ## Blanks and delimiters -/

theorem run_between {c : Char} {list : List Token} {next : Mode} (h : openToken c = (list, next))
    (rest : List Char) : Mode.between.run (c :: rest) = list ++ next.run rest := by
  rw [Mode.run, Mode.step, h]

theorem openToken_of_isBlank {c : Char} (h : isBlank c) : openToken c = ([], .between) := by
  simp only [openToken, if_pos h]

theorem run_blanks {blanks : List Char} (h : Blank blanks) (rest : List Char) :
    Mode.between.run (blanks ++ rest) = Mode.between.run rest := by
  induction blanks with
  | nil => rfl
  | cons c blanks ih =>
    obtain ⟨hc, hblanks⟩ := List.forall_mem_cons.1 h
    rw [List.cons_append, run_between (openToken_of_isBlank hc), List.nil_append, ih hblanks]

theorem Token.isDelimiter_spell {token : Token} (h : token.isDelimiter) :
    ∃ c, token.spell = [c] ∧ continuesNumber c = false ∧ openToken c = ([token], .between) := by
  cases token with
  | beginObject => exact ⟨'{', rfl, rfl, rfl⟩
  | endObject => exact ⟨'}', rfl, rfl, rfl⟩
  | beginArray => exact ⟨'[', rfl, rfl, rfl⟩
  | endArray => exact ⟨']', rfl, rfl, rfl⟩
  | colon => exact ⟨':', rfl, rfl, rfl⟩
  | comma => exact ⟨',', rfl, rfl, rfl⟩
  | null | bool | number | text | broken => cases h

theorem run_delimiter {token : Token} (h : token.isDelimiter) (rest : List Char) :
    Mode.between.run (token.spell ++ rest) = token :: Mode.between.run rest := by
  obtain ⟨c, hspell, -, hopen⟩ := Token.isDelimiter_spell h
  rw [hspell, List.singleton_append, run_between hopen, List.singleton_append]

/-! ## Words -/

theorem run_word (letters : List Char) (hne : letters ≠ []) (token : Token) (rest : List Char) :
    (Mode.word letters token).run (letters ++ rest) = token :: Mode.between.run rest := by
  induction letters with
  | nil => exact absurd rfl hne
  | cons c letters ih =>
    cases letters with
    | nil => simp [Mode.run, Mode.step]
    | cons d letters => simpa [Mode.run, Mode.step] using ih (by simp)

/-! ## Numbers -/

theorem digit?_digitChar : ∀ d < 10, digit? (digitChar d) = some d := by decide

theorem run_number {stage : Stage} {value : Numeral} {c : Char} {list : List Token} {next : Mode}
    (h : numberStep stage value c = (list, next)) (rest : List Char) :
    (Mode.number stage value).run (c :: rest) = list ++ next.run rest := by
  rw [Mode.run, Mode.step, h]

/-- A stage that takes digits as they come takes all digits of a list. -/
theorem run_digits {stage : Stage} (value : List Nat → Numeral)
    (hstep : ∀ seen d, d < 10 →
      numberStep stage (value seen) (digitChar d) = ([], .number stage (value (seen ++ [d]))))
    {digits : List Nat} (h : ∀ d ∈ digits, d < 10) (seen : List Nat) (rest : List Char) :
    (Mode.number stage (value seen)).run (digits.map digitChar ++ rest) =
      (Mode.number stage (value (seen ++ digits))).run rest := by
  induction digits generalizing seen with
  | nil => rw [List.map_nil, List.nil_append, List.append_nil]
  | cons d digits ih =>
    rw [List.forall_mem_cons] at h
    have hnext := ih h.2 (seen ++ [d])
    rw [List.append_assoc, List.singleton_append] at hnext
    rw [List.map_cons, List.cons_append, run_number (hstep seen d h.1), List.nil_append, hnext]

/-- Stages at which a number is complete. -/
def Stage.isComplete : Stage → Bool
  | .zero | .whole | .fraction | .exponent => true
  | .sign | .point | .mark | .markSign => false

/-- A number is complete before a text that cannot continue it. -/
theorem run_complete {stage : Stage} (hstage : stage.isComplete) (value : Numeral)
    {rest : List Char} (h : ClosesNumber rest) :
    (Mode.number stage value).run rest = .number value :: Mode.between.run rest := by
  cases rest with
  | nil =>
    cases stage with
    | zero | whole | fraction | exponent => rfl
    | sign | point | mark | markSign => cases hstage
  | cons c rest =>
    have hc := h c rfl
    simp only [continuesNumber, Bool.or_eq_false_iff, beq_eq_false_iff_ne,
      Option.isSome_eq_false_iff, Option.isNone_iff_eq_none] at hc
    obtain ⟨⟨⟨hdigit, hpoint⟩, he⟩, hE⟩ := hc
    cases stage with
    | zero | whole | fraction | exponent =>
      simp [Mode.run, Mode.step, numberStep, hdigit, hpoint, he, hE]
    | sign | point | mark | markSign => cases hstage

theorem openToken_digitChar {d : Nat} (hpos : 0 < d) (hlt : d < 10) :
    openToken (digitChar d) = ([], .number .whole ⟨false, [d], [], none⟩) := by
  rcases d with _ | _ | _ | _ | _ | _ | _ | _ | _ | _ | d
  all_goals first | rfl | omega

theorem numberStep_sign_digitChar {d : Nat} (hpos : 0 < d) (hlt : d < 10) :
    numberStep .sign ⟨true, [], [], none⟩ (digitChar d) =
      ([], .number .whole ⟨true, [d], [], none⟩) := by
  rw [numberStep, digit?_digitChar d hlt]
  split
  case h_1 h => exact absurd (Option.some.inj h) (Nat.ne_of_gt hpos)
  case h_2 h => cases h; rfl
  case h_3 h => cases h

/-- The stage after the digits before the point. -/
def wholeStage (digits : List Nat) : Stage :=
  if digits = [0] then .zero else .whole

/-- The first digit of a number, behind its sign. -/
theorem run_firstDigit (negative : Bool) {d : Nat} (h : d < 10) (rest : List Char) :
    Mode.between.run (signText negative ++ digitChar d :: rest) =
      (Mode.number (wholeStage [d]) ⟨negative, [d], [], none⟩).run rest := by
  by_cases hzero : d = 0
  · subst hzero
    cases negative <;> rfl
  have hpos : 0 < d := Nat.pos_of_ne_zero hzero
  have hstage : wholeStage [d] = .whole := if_neg (by simpa using hzero)
  rw [hstage]
  cases negative with
  | false =>
    show Mode.between.run (digitChar d :: rest) = _
    rw [run_between (openToken_digitChar hpos h), List.nil_append]
  | true =>
    show (Mode.number .sign ⟨true, [], [], none⟩).run (digitChar d :: rest) = _
    rw [run_number (numberStep_sign_digitChar hpos h), List.nil_append]

theorem run_whole (negative : Bool) {digits : List Nat} (h : Unpadded digits) (rest : List Char) :
    Mode.between.run (signText negative ++ digits.map digitChar ++ rest) =
      (Mode.number (wholeStage digits) ⟨negative, digits, [], none⟩).run rest := by
  cases h with
  | zero =>
    rw [List.append_assoc]
    exact run_firstDigit negative (by decide) rest
  | @leading d digits hpos hlt hrest =>
    have hstage (more : List Nat) : wholeStage (d :: more) = .whole :=
      if_neg fun h => Nat.ne_of_gt hpos (List.cons.inj h).1
    rw [List.append_assoc, List.map_cons, List.cons_append, run_firstDigit negative hlt, hstage,
      hstage]
    refine run_digits (fun seen => ⟨negative, seen, [], none⟩) ?_ hrest [d] rest
    intro seen e he
    rw [numberStep, digit?_digitChar e he]

/-- Stages at which a fraction or an exponent may follow the digits before it. -/
theorem isComplete_wholeStage (digits : List Nat) : (wholeStage digits).isComplete := by
  rw [wholeStage]
  split <;> rfl

theorem numberStep_wholeStage_point (digits : List Nat) (value : Numeral) :
    numberStep (wholeStage digits) value '.' = ([], .number .point value) := by
  rw [wholeStage]
  split <;> rfl

/-- After the fraction, if there is one, the number is complete but for an exponent. -/
theorem run_fraction (negative : Bool) (whole : List Nat) {digits : List Nat} {text : List Char}
    (h : FractionText digits text) :
    ∃ stage : Stage, stage.isComplete ∧ stage ≠ .exponent ∧ ∀ rest,
      (Mode.number (wholeStage whole) ⟨negative, whole, [], none⟩).run (text ++ rest) =
        (Mode.number stage ⟨negative, whole, digits, none⟩).run rest := by
  cases h with
  | none =>
    refine ⟨wholeStage whole, isComplete_wholeStage whole, ?_, fun rest => rfl⟩
    rw [wholeStage]
    split <;> nofun
  | some h =>
    refine ⟨.fraction, rfl, nofun, fun rest => ?_⟩
    obtain ⟨hne, hlt⟩ := h
    cases digits with
    | nil => exact absurd rfl hne
    | cons d digits =>
      rw [List.forall_mem_cons] at hlt
      have hfirst : numberStep .point ⟨negative, whole, [], none⟩ (digitChar d) =
          ([], .number .fraction ⟨negative, whole, [d], none⟩) := by
        rw [numberStep, digit?_digitChar d hlt.1]
      rw [List.cons_append, run_number (numberStep_wholeStage_point whole _), List.nil_append,
        List.map_cons, List.cons_append, run_number hfirst, List.nil_append]
      refine run_digits (fun seen => ⟨negative, whole, seen, none⟩) ?_ hlt.2 [d] rest
      intro seen e he
      rw [numberStep, digit?_digitChar e he]

/-- Exponent digits behind the mark and the sign. -/
theorem run_exponentDigits {value : Numeral} (negative : Bool) {digits : List Nat}
    (h : ∀ d ∈ digits, d < 10) (seen : List Nat) (rest : List Char) :
    (Mode.number .exponent { value with exponent := some (negative, seen) }).run
        (digits.map digitChar ++ rest) =
      (Mode.number .exponent { value with exponent := some (negative, seen ++ digits) }).run
        rest := by
  refine run_digits (fun seen => { value with exponent := some (negative, seen) }) ?_ h
    seen rest
  intro seen e he
  rw [numberStep, digit?_digitChar e he]
  rfl

theorem numberStep_mark {stage : Stage} (hcomplete : stage.isComplete) (hne : stage ≠ .exponent)
    (value : Numeral) {mark : Char} (hmark : isExponentMark mark) :
    numberStep stage value mark = ([], .number .mark value) := by
  rcases hmark with rfl | rfl
  all_goals
    cases stage with
    | zero | whole | fraction => rfl
    | exponent => exact absurd rfl hne
    | sign | point | mark | markSign => cases hcomplete

theorem numberStep_mark_digitChar : ∀ d < 10, ∀ value : Numeral,
    numberStep .mark value (digitChar d) = ([], .number .exponent (value.addExponentDigit d)) := by
  intro d hd value
  rcases d with _ | _ | _ | _ | _ | _ | _ | _ | _ | _ | d
  all_goals first | rfl | omega

/-- The exponent leaves the number complete. -/
theorem run_exponent {stage : Stage} (hcomplete : stage.isComplete) (hne : stage ≠ .exponent)
    {value : Numeral} (hvalue : value.exponent = none) {exponent : Option (Bool × List Nat)}
    {text : List Char} (h : ExponentText exponent text) :
    ∃ last : Stage, last.isComplete ∧ ∀ rest,
      (Mode.number stage value).run (text ++ rest) =
        (Mode.number last { value with exponent := exponent }).run rest := by
  have hstep {mark : Char} (hmark : isExponentMark mark) (rest : List Char) :
      (Mode.number stage value).run (mark :: rest) = (Mode.number .mark value).run rest := by
    rw [run_number (numberStep_mark hcomplete hne value hmark), List.nil_append]
  -- behind the sign, the digits only extend the exponent
  have hsigned (negative : Bool) {digits : List Nat} (hdigits : Digits digits) (rest : List Char) :
      (Mode.number .markSign { value with exponent := some (negative, []) }).run
          (digits.map digitChar ++ rest) =
        (Mode.number .exponent { value with exponent := some (negative, digits) }).run rest := by
    obtain ⟨hnil, hlt⟩ := hdigits
    cases digits with
    | nil => exact absurd rfl hnil
    | cons d digits =>
      rw [List.forall_mem_cons] at hlt
      have hfirst : numberStep .markSign { value with exponent := some (negative, []) }
          (digitChar d) =
          ([], .number .exponent { value with exponent := some (negative, [d]) }) := by
        rw [numberStep, digit?_digitChar d hlt.1]
        rfl
      rw [List.map_cons, List.cons_append, run_number hfirst, List.nil_append]
      exact run_exponentDigits negative hlt.2 [d] rest
  cases h with
  | none =>
    refine ⟨stage, hcomplete, fun rest => ?_⟩
    rw [← hvalue, List.nil_append]
  | @plain mark hmark digits hdigits =>
    refine ⟨.exponent, rfl, fun rest => ?_⟩
    obtain ⟨hnil, hlt⟩ := hdigits
    cases digits with
    | nil => exact absurd rfl hnil
    | cons d digits =>
      rw [List.forall_mem_cons] at hlt
      have hfirst : value.addExponentDigit d = { value with exponent := some (false, [d]) } := by
        rw [Numeral.addExponentDigit, hvalue]
      rw [List.cons_append, hstep hmark, List.map_cons, List.cons_append,
        run_number (numberStep_mark_digitChar d hlt.1 value), List.nil_append, hfirst]
      exact run_exponentDigits false hlt.2 [d] rest
  | plus hmark hdigits =>
    refine ⟨.exponent, rfl, fun rest => ?_⟩
    rw [List.cons_append, hstep hmark, List.cons_append, ← hsigned false hdigits rest]
    rfl
  | minus hmark hdigits =>
    refine ⟨.exponent, rfl, fun rest => ?_⟩
    rw [List.cons_append, hstep hmark, List.cons_append, ← hsigned true hdigits rest]
    rfl

theorem run_numeral {value : Numeral} {text : List Char} (h : value.Text text) {rest : List Char}
    (hrest : ClosesNumber rest) :
    Mode.between.run (text ++ rest) = .number value :: Mode.between.run rest := by
  cases h with
  | @mk negative whole fraction exponent fractionText exponentText hwhole hfraction hexponent =>
    obtain ⟨stage, hcomplete, hne, hrun⟩ := run_fraction negative whole hfraction
    have hnone : (Numeral.mk negative whole fraction none).exponent = none := rfl
    obtain ⟨last, hlast, hrun'⟩ := run_exponent hcomplete hne hnone hexponent
    rw [List.append_assoc, List.append_assoc, run_whole negative hwhole, hrun, hrun',
      run_complete hlast _ hrest]

/-! ## Strings -/

theorem run_plain {c : Char} (hquote : c ≠ '"') (hescape : c ≠ '\\') (hcontrol : 0x20 ≤ c.toNat)
    (pieces : List Piece) (rest : List Char) :
    (Mode.text pieces).run (c :: rest) = (Mode.text (.char c :: pieces)).run rest := by
  rw [Mode.run, Mode.step, if_neg hquote, if_neg hescape, if_neg (Nat.not_lt.2 hcontrol)]
  rfl

theorem run_letter {c d : Char} (h : escaped? c = some d) (pieces : List Piece)
    (rest : List Char) :
    (Mode.text pieces).run ('\\' :: c :: rest) = (Mode.text (.char d :: pieces)).run rest := by
  have hne : c ≠ 'u' := by
    rintro rfl
    cases h
  show (Mode.escape pieces).run (c :: rest) = _
  rw [Mode.run, Mode.step, if_neg hne, h]
  rfl

/-- A hexadecimal digit is a single byte. -/
theorem utf8Size_of_hexDigit? {c : Char} {n : Nat} (h : hexDigit? c = some n) :
    c.utf8Size = 1 := by
  rw [Char.utf8Size_eq_one_iff, UInt32.le_iff_toNat_le]
  show c.toNat ≤ 127
  have hle (d : Char) (hd : d.toNat ≤ 127) (hcd : c ≤ d) : c.toNat ≤ 127 := by
    rw [Char.le_def, UInt32.le_iff_toNat_le] at hcd
    exact Nat.le_trans hcd hd
  rw [hexDigit?] at h
  split at h
  case isTrue hdigit => exact hle '9' (by decide) hdigit.2
  split at h
  case isTrue hlower => exact hle 'f' (by decide) hlower.2
  split at h
  case isTrue hupper => exact hle 'F' (by decide) hupper.2
  case isFalse => cases h

theorem utf8ByteSize_ofList_of_single {chars : List Char} (h : ∀ c ∈ chars, c.utf8Size = 1) :
    (String.ofList chars).utf8ByteSize = chars.length := by
  induction chars with
  | nil => rfl
  | cons c chars ih =>
    rw [List.forall_mem_cons] at h
    rw [String.ofList_cons, String.utf8ByteSize_append, String.utf8ByteSize_singleton, h.1, ih h.2,
      List.length_cons, Nat.add_comm]

theorem mapM_eq_some {α β : Type} {f : α → Option β} {list : List α} {values : List β}
    (h : list.mapM f = some values) :
    list.length = values.length ∧ ∀ a ∈ list, ∃ b, f a = some b := by
  induction list generalizing values with
  | nil =>
    cases h
    exact ⟨rfl, nofun⟩
  | cons a list ih =>
    rw [List.mapM_cons] at h
    obtain ⟨b, hb, h⟩ := Option.bind_eq_some_iff.1 h
    obtain ⟨rest, hrest, h⟩ := Option.bind_eq_some_iff.1 h
    cases h
    obtain ⟨hlength, hall⟩ := ih hrest
    exact ⟨congrArg Nat.succ hlength, List.forall_mem_cons.2 ⟨⟨b, hb⟩, hall⟩⟩

/-- What denotes a unit is four single bytes. -/
theorem unit?_eq_some {digits : List Char} {u : Nat} (h : unit? digits = some u) :
    digits.length = 4 ∧ ∀ c ∈ digits, c.utf8Size = 1 := by
  rw [unit?] at h
  split at h
  case h_1 values a b c d hmap =>
    obtain ⟨hlength, hall⟩ := mapM_eq_some hmap
    refine ⟨hlength, fun e he => ?_⟩
    obtain ⟨n, hn⟩ := hall e he
    exact utf8Size_of_hexDigit? hn
  case h_2 => cases h

theorem run_unit {a b c d : Char} {u : Nat} (h : unit? [a, b, c, d] = some u)
    (pieces : List Piece) (rest : List Char) :
    (Mode.text pieces).run ('\\' :: 'u' :: a :: b :: c :: d :: rest) =
      (Mode.text (.unit u :: pieces)).run rest := by
  have hsingle := (unit?_eq_some h).2
  have hshort (seen : List Char) (e : Char) (hseen : seen ++ [e] ⊆ [a, b, c, d])
      (hlength : (seen ++ [e]).length < 4) (text : List Char) :
      (Mode.unicode pieces seen).run (e :: text) =
        (Mode.unicode pieces (seen ++ [e])).run text := by
    have hsize := utf8ByteSize_ofList_of_single fun c hc => hsingle c (hseen hc)
    simp only [Mode.run, Mode.step, unicodeStep, hsize, if_pos hlength]
    rfl
  have hlast : unicodeStep pieces [a, b, c] d = ([], .text (.unit u :: pieces)) := by
    have hsize := utf8ByteSize_ofList_of_single hsingle
    simp only [unicodeStep, List.cons_append, List.nil_append, hsize, h]
    rfl
  show (Mode.unicode pieces []).run (a :: b :: c :: d :: rest) = _
  rw [hshort [] a (by simp) (by simp), List.nil_append, hshort [a] b (by simp) (by simp),
    List.cons_append, List.nil_append, hshort [a, b] c (by simp) (by simp), List.cons_append,
    List.cons_append, List.nil_append, Mode.run, Mode.step, hlast]
  rfl

theorem run_piece {piece : Piece} {chars : List Char} (h : piece.Text chars) (pieces : List Piece)
    (rest : List Char) :
    (Mode.text pieces).run (chars ++ rest) = (Mode.text (piece :: pieces)).run rest := by
  cases h with
  | plain hquote hescape hcontrol => exact run_plain hquote hescape hcontrol pieces rest
  | letter h => exact run_letter h pieces rest
  | unit h => exact run_unit h pieces rest

theorem run_pieces {pieces : List Piece} {text : List Char} (h : PiecesText pieces text)
    (rest : List Char) :
    (Mode.text []).run (text ++ rest) = (Mode.text pieces.reverse).run rest := by
  induction h generalizing rest with
  | nil => rfl
  | snoc _ hpiece ih =>
    rw [List.append_assoc, ih, run_piece hpiece, List.reverse_concat]

theorem run_text {pieces : List Piece} {text : List Char} (h : PiecesText pieces text)
    (rest : List Char) :
    Mode.between.run ('"' :: text ++ ['"'] ++ rest) =
      .text ⟨pieces, none⟩ :: Mode.between.run rest := by
  rw [List.append_assoc]
  show (Mode.text []).run (text ++ '"' :: rest) = _
  rw [run_pieces h, Mode.run, Mode.step, if_pos rfl, List.reverse_reverse]
  rfl

/-! ## Tokens -/

/-- Only a number needs a text behind it that closes it. -/
theorem run_token {token : Token} {chars rest : List Char} (h : token.Text chars)
    (hrest : token.isDelimiter ∨ ClosesNumber rest) :
    Mode.between.run (chars ++ rest) = token :: Mode.between.run rest := by
  cases h with
  | delimiter h => exact run_delimiter h rest
  | null => exact run_word ['u', 'l', 'l'] (by simp) .null rest
  | true => exact run_word ['r', 'u', 'e'] (by simp) (.bool true) rest
  | false => exact run_word ['a', 'l', 's', 'e'] (by simp) (.bool false) rest
  | number h =>
    rcases hrest with hdelimiter | hcloses
    · cases hdelimiter
    · exact run_numeral h hcloses
  | text h => exact run_text h rest

/-- Tokens of which no two values stand next to each other. -/
def Separated (list : List Token) : Prop :=
  list.IsChain fun before after => before.isDelimiter ∨ after.isDelimiter

theorem Token.Text.closesNumber {token : Token} {chars : List Char} (h : token.Text chars)
    (hdelimiter : token.isDelimiter) (rest : List Char) : ClosesNumber (chars ++ rest) := by
  cases h with
  | delimiter h =>
    obtain ⟨c, hspell, hcloses, -⟩ := Token.isDelimiter_spell h
    rw [hspell]
    exact closesNumber_cons hcloses rest
  | null | true | false | number | text => cases hdelimiter

/-- Blanks, a delimiter and the end of the text all close a number. -/
theorem TokensText.closesNumber {list : List Token} {text rest : List Char}
    (h : TokensText list text) (hhead : ∀ token ∈ list.head?, token.isDelimiter)
    (hrest : list = [] → ClosesNumber rest) : ClosesNumber (text ++ rest) := by
  have hblank {blanks : List Char} (hblanks : Blank blanks) {rest : List Char}
      (hrest : ClosesNumber rest) : ClosesNumber (blanks ++ rest) := by
    cases blanks with
    | nil => exact hrest
    | cons c blanks =>
      exact closesNumber_cons (continuesNumber_of_isBlank (hblanks c List.mem_cons_self)) _
  cases h with
  | nil hblanks => exact hblank hblanks (hrest rfl)
  | cons hblanks htoken _ =>
    rw [List.append_assoc, List.append_assoc]
    exact hblank hblanks (htoken.closesNumber (hhead _ rfl) _)

/-- The machine cuts every text of several tokens, of which no two values stand next to each other,
into just these tokens, and goes on with what is behind it if that does not continue the last. -/
theorem TokensText.run_append {list : List Token} {text rest : List Char} (h : TokensText list text)
    (hseparated : Separated list)
    (hlast : ∀ token ∈ list.getLast?, token.isDelimiter ∨ ClosesNumber rest) :
    Mode.between.run (text ++ rest) = list ++ Mode.between.run rest := by
  induction h with
  | nil hblanks => exact run_blanks hblanks rest
  | @cons token list blanks chars text hblanks htoken htext ih =>
    obtain ⟨hhead, htail⟩ := List.isChain_cons.1 hseparated
    have hcloses : token.isDelimiter ∨ ClosesNumber (text ++ rest) := by
      by_cases hdelimiter : token.isDelimiter
      · exact .inl hdelimiter
      · refine .inr (htext.closesNumber (fun next hnext => ?_) fun hnil => ?_)
        · exact (hhead next hnext).resolve_left hdelimiter
        · subst hnil
          exact (hlast token rfl).resolve_left hdelimiter
    have hrest : ∀ last ∈ list.getLast?, last.isDelimiter ∨ ClosesNumber rest := by
      intro last hmem
      apply hlast last
      rw [List.getLast?_cons, hmem]
      rfl
    rw [List.append_assoc, List.append_assoc, run_blanks hblanks, run_token htoken hcloses,
      ih htail hrest, List.cons_append]

/-- **A text is cut into its tokens.** -/
theorem TokensText.tokens_eq {list : List Token} {text : List Char} (h : TokensText list text)
    (hseparated : Separated list) : Json.tokens text = list := by
  have hrun := h.run_append hseparated fun _ _ => .inr closesNumber_nil
  rw [List.append_nil] at hrun
  rw [Json.tokens, hrun]
  exact List.append_nil list

end Keyring.Json
