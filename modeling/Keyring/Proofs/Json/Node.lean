import Keyring.Proofs.Json.Token

/-!
# Texts are read as their values

Main statement: a text of a value is read as the value, with nothing behind it. First the text is
cut into the tokens of the value, since every value inside it stands next to a delimiter. Then the
tokens of a value take the machine with the stack to where the value is placed, whatever containers
are open around it. A tree is plain when its numbers are natural numbers and its texts have no
control characters; every record is written as such a tree, and what it is written as is one of its
texts.
-/

namespace Keyring.Json

theorem itemTokens_eq_map (items : List Node) : itemTokens items = items.map Node.tokens := by
  induction items with
  | nil => rfl
  | cons item items ih => rw [itemTokens, ih, List.map_cons]

/-- The tokens of a member. -/
def memberTokensOf (member : Spelling × Node) : List Token :=
  .text member.1 :: .colon :: member.2.tokens

theorem memberTokens_eq_map (members : List (Spelling × Node)) :
    memberTokens members = members.map memberTokensOf := by
  induction members with
  | nil => rfl
  | cons member members ih =>
    rw [memberTokens, ih]
    rfl

/-! ## No two values stand next to each other -/

/-- Separated tokens on both sides of a delimiter are separated together. -/
theorem Separated.append_delimiter {before after : List Token} (hbefore : Separated before)
    {token : Token} (h : token.isDelimiter) (hafter : Separated after) :
    Separated (before ++ token :: after) := by
  have htail : Separated (token :: after) := List.isChain_cons.2 ⟨fun _ _ => .inl h, hafter⟩
  refine hbefore.append htail fun _ _ next hnext => ?_
  cases hnext
  exact .inr h

theorem Separated.bracket {list : List Token} (h : Separated list) {left right : Token}
    (hleft : left.isDelimiter) (hright : right.isDelimiter) :
    Separated (left :: list ++ [right]) :=
  have hnil : Separated [] := .nil
  hnil.append_delimiter hleft (h.append_delimiter hright hnil)

theorem separated_commaSeparated {lists : List (List Token)} (h : ∀ list ∈ lists, Separated list) :
    Separated (commaSeparated lists) := by
  induction lists using commaSeparated.induct with
  | case1 => exact .nil
  | case2 last => exact h last (List.mem_singleton_self last)
  | case3 first rest hne ih =>
    rw [List.forall_mem_cons] at h
    rw [commaSeparated.eq_3 first rest hne]
    exact h.1.append_delimiter rfl (ih h.2)

theorem Node.Complete.separated {node : Node} (h : node.Complete) : Separated node.tokens := by
  induction h with
  | null | bool | number | text => exact .singleton _
  | array _ ih =>
    rw [Node.tokens, itemTokens_eq_map]
    refine Separated.bracket (separated_commaSeparated ?_) rfl rfl
    rwa [List.forall_mem_map]
  | object _ _ ih =>
    rw [Node.tokens, memberTokens_eq_map]
    refine Separated.bracket (separated_commaSeparated ?_) rfl rfl
    rw [List.forall_mem_map]
    intro member hmember
    have hkey : Separated [.text member.1] := .singleton _
    exact hkey.append_delimiter rfl (ih member hmember)

/-! ## The tokens of a container -/

theorem mem_commaSeparated {lists : List (List Token)} {token : Token}
    (h : token ∈ commaSeparated lists) : token = .comma ∨ ∃ list ∈ lists, token ∈ list := by
  induction lists using commaSeparated.induct with
  | case1 => cases h
  | case2 last => exact .inr ⟨last, List.mem_singleton_self last, h⟩
  | case3 first rest hne ih =>
    rw [commaSeparated.eq_3 first rest hne, List.mem_append, List.mem_cons] at h
    rcases h with hfirst | rfl | hrest
    · exact .inr ⟨first, List.mem_cons_self, hfirst⟩
    · exact .inl rfl
    · refine (ih hrest).imp_right ?_
      rintro ⟨list, hlist, hmem⟩
      exact ⟨list, List.mem_cons_of_mem first hlist, hmem⟩

/-- What holds of the delimiters of a container and of the tokens inside holds of all its tokens. -/
theorem forall_mem_bracket {P : Token → Prop} {left right : Token} {lists : List (List Token)}
    (hleft : P left) (hright : P right) (hcomma : P .comma)
    (hlists : ∀ list ∈ lists, ∀ token ∈ list, P token) :
    ∀ token ∈ left :: commaSeparated lists ++ [right], P token := by
  intro token htoken
  rw [List.mem_append, List.mem_cons, List.mem_singleton] at htoken
  rcases htoken with (rfl | hinside) | rfl
  · exact hleft
  · rcases mem_commaSeparated hinside with rfl | ⟨list, hlist, hmem⟩
    · exact hcomma
    · exact hlists list hlist token hmem
  · exact hright

/-! ## From the tokens to the tree -/

/-- What the rest of the tokens gives after one token. -/
def resume (progress : Progress) (rest : List Token) : Node × List Token :=
  match progress with
  | .inside frames position => build frames position rest
  | .done node => (node, rest)

theorem build_cons (frames : List Frame) (position : Position) (token : Token)
    (rest : List Token) :
    build frames position (token :: rest) = resume (advance frames position token) rest := rfl

/-- A value that is put in its place by its tokens. -/
def Builds (node : Node) : Prop :=
  ∀ frames rest, build frames .value (node.tokens ++ rest) = resume (place frames node) rest

/-- The items of an array behind those that are there already, latest first. -/
theorem build_items {item : Node} {items : List Node} (hitem : Builds item)
    (hitems : ∀ item ∈ items, Builds item) (frames : List Frame) (done : List Node)
    (rest : List Token) :
    build (.array done :: frames) .value
        (commaSeparated ((item :: items).map Node.tokens) ++ .endArray :: rest) =
      resume (place frames (.array (done.reverse ++ item :: items) .closed)) rest := by
  induction items generalizing item done with
  | nil =>
    rw [List.map_singleton, commaSeparated, hitem, place, resume, build_cons, advance,
      List.reverse_cons]
  | cons next items ih =>
    rw [List.forall_mem_cons] at hitems
    have hnext := ih hitems.1 hitems.2 (item :: done)
    rw [List.reverse_cons, List.append_assoc, List.singleton_append] at hnext
    rw [List.map_cons, List.map_cons, commaSeparated, List.append_assoc, hitem, place, resume,
      List.cons_append, build_cons, advance, resume, ← List.map_cons]
    · exact hnext
    · nofun

/-- No value begins with the end of an array. -/
theorem exists_tokens_eq_cons (node : Node) :
    ∃ token rest, node.tokens = token :: rest ∧ token ≠ .endArray := by
  cases node with
  | null | bool | number | text | array | object | broken => exact ⟨_, _, rfl, nofun⟩

theorem build_firstItem (item : Node) (frames : List Frame) (rest : List Token) :
    build frames .firstItem (item.tokens ++ rest) =
      build (.array [] :: frames) .value (item.tokens ++ rest) := by
  obtain ⟨token, tokens, htokens, hne⟩ := exists_tokens_eq_cons item
  rw [htokens, List.cons_append, build_cons, build_cons, advance, advance, if_neg hne]

theorem commaSeparated_cons (first : List Token) (lists : List (List Token)) :
    ∃ tail, commaSeparated (first :: lists) = first ++ tail := by
  cases lists with
  | nil => exact ⟨[], (List.append_nil first).symm⟩
  | cons second lists => exact ⟨.comma :: commaSeparated (second :: lists), rfl⟩

theorem builds_array {items : List Node} (h : ∀ item ∈ items, Builds item) :
    Builds (.array items .closed) := by
  intro frames rest
  rw [Node.tokens, itemTokens_eq_map, List.append_assoc, List.cons_append, List.singleton_append,
    build_cons, advance, openValue, resume]
  cases items with
  | nil => rfl
  | cons item items =>
    rw [List.forall_mem_cons] at h
    have hitems := build_items h.1 h.2 frames [] rest
    rw [List.reverse_nil, List.nil_append] at hitems
    rw [← hitems, List.map_cons]
    obtain ⟨tail, htail⟩ := commaSeparated_cons item.tokens (items.map Node.tokens)
    rw [htail, List.append_assoc]
    exact build_firstItem item frames (tail ++ .endArray :: rest)

/-! ### Objects -/

/-- A member of an object behind those that are there already, latest first. -/
theorem build_member {member : Spelling × Node} (hkey : member.1.cut = none)
    (hvalue : Builds member.2) (frames : List Frame) (done : List (Spelling × Node))
    (rest : List Token) :
    build frames (.nextKey done) (memberTokensOf member ++ rest) =
      build frames (.afterMember (member :: done)) rest := by
  rw [memberTokensOf, List.cons_append, build_cons, advance, openMember, hkey, resume,
    List.cons_append, build_cons, advance, if_pos rfl, resume, hvalue, place, resume]

theorem build_members {member : Spelling × Node} {members : List (Spelling × Node)}
    (hkeys : ∀ member' ∈ member :: members, member'.1.cut = none)
    (hvalues : ∀ member' ∈ member :: members, Builds member'.2) (frames : List Frame)
    (done : List (Spelling × Node)) (rest : List Token) :
    build frames (.nextKey done)
        (commaSeparated ((member :: members).map memberTokensOf) ++ .endObject :: rest) =
      resume (place frames (.object (done.reverse ++ member :: members) .closed)) rest := by
  induction members generalizing member done with
  | nil =>
    rw [List.forall_mem_singleton] at hkeys hvalues
    rw [List.map_singleton, commaSeparated, build_member hkeys hvalues, build_cons, advance,
      List.reverse_cons]
  | cons next members ih =>
    rw [List.forall_mem_cons] at hkeys hvalues
    have hnext := ih hkeys.2 hvalues.2 (member :: done)
    rw [List.reverse_cons, List.append_assoc, List.singleton_append] at hnext
    rw [List.map_cons, List.map_cons, commaSeparated, List.append_assoc,
      build_member hkeys.1 hvalues.1, List.cons_append, build_cons, advance, resume,
      ← List.map_cons]
    · exact hnext
    · nofun

/-- The first key may come where the object may also end. -/
theorem build_firstKey (key : Spelling) (frames : List Frame) (rest : List Token) :
    build frames .firstKey (.text key :: rest) =
      build frames (.nextKey []) (.text key :: rest) := by
  rw [build_cons, build_cons, advance, advance, if_neg nofun]

theorem builds_object {members : List (Spelling × Node)}
    (hkeys : ∀ member ∈ members, member.1.cut = none)
    (hvalues : ∀ member ∈ members, Builds member.2) : Builds (.object members .closed) := by
  intro frames rest
  rw [Node.tokens, memberTokens_eq_map, List.append_assoc, List.cons_append,
    List.singleton_append, build_cons, advance, openValue, resume]
  cases members with
  | nil => rfl
  | cons member members =>
    have hmembers := build_members hkeys hvalues frames [] rest
    rw [List.reverse_nil, List.nil_append] at hmembers
    rw [← hmembers, List.map_cons]
    obtain ⟨tail, htail⟩ := commaSeparated_cons (memberTokensOf member) (members.map memberTokensOf)
    rw [htail]
    exact build_firstKey member.1 frames _

theorem Node.Complete.builds {node : Node} (h : node.Complete) : Builds node := by
  induction h with
  | null => exact fun _ _ => rfl
  | bool value => exact fun _ _ => rfl
  | number n => exact fun _ _ => rfl
  | text h =>
    intro frames rest
    rw [Node.tokens, List.singleton_append, build_cons, advance, openValue, h]
  | array _ ih => exact builds_array ih
  | object hkeys _ ih => exact builds_object hkeys ih

/-- **A text is read as its value.** A text of a value is read as the value, and nothing is left
behind it. -/
theorem Node.Text.ofText_eq {node : Node} {text : List Char} (h : node.Text text) :
    Node.ofText text = (node, []) := by
  have hbuild := h.complete.builds [] []
  rw [List.append_nil] at hbuild
  rw [Node.ofText, h.tokens.tokens_eq h.complete.separated, hbuild]
  rfl

/-! ## Plain values -/

/-- A text without control characters. Other characters stand for themselves or are escaped by a
letter. -/
def NoControl (text : String) : Prop := ∀ c ∈ text.toList, 0x20 ≤ c.toNat

-- by the characters of the text, not by all characters there are
instance (text : String) : Decidable (NoControl text) :=
  decidable_of_iff (text.toList.all fun c => Nat.ble 0x20 c.toNat) (by simp [NoControl])

/-- Complete values of natural numbers and texts without control characters. -/
inductive Node.Plain : Node → Prop
  | null : Plain .null
  | bool (value : Bool) : Plain (.bool value)
  | number (n : Nat) : Plain (.number (.ofNat n))
  | text {text : String} (h : NoControl text) : Plain (.text (.ofString text))
  | array {items : List Node} (h : ∀ item ∈ items, item.Plain) : Plain (.array items .closed)
  | object {members : List (Spelling × Node)}
    (hkeys : ∀ member ∈ members, ∃ name, NoControl name ∧ member.1 = .ofString name)
    (hvalues : ∀ member ∈ members, member.2.Plain) : Plain (.object members .closed)

theorem Node.Plain.complete {node : Node} (h : node.Plain) : node.Complete := by
  induction h with
  | null => exact .null
  | bool value => exact .bool value
  | number n => exact .number _
  | text _ => exact .text rfl
  | array _ ih => exact .array ih
  | object hkeys _ ih =>
    refine .object (fun member hmember => ?_) ih
    obtain ⟨name, -, hkey⟩ := hkeys member hmember
    rw [hkey]
    rfl

theorem text_spell_char {c : Char} (h : 0x20 ≤ c.toNat) :
    (Piece.char c).Text (Piece.char c).spell := by
  by_cases hquote : c = '"'
  · subst hquote
    exact .letter rfl
  by_cases hescape : c = '\\'
  · subst hescape
    exact .letter rfl
  have hcontrol : ¬ c.toNat < 0x20 := Nat.not_lt.2 h
  have hne (d : Char) (hd : d.toNat < 0x20) : c ≠ d := by
    rintro rfl
    exact hcontrol hd
  rw [Piece.spell.eq_9 c hquote hescape (hne _ (by decide)) (hne _ (by decide))
    (hne _ (by decide)) (hne _ (by decide)) (hne _ (by decide)), if_neg hcontrol]
  exact .plain hquote hescape h

theorem text_spell_ofString {text : String} (h : NoControl text) :
    (Token.text (.ofString text)).Text (Token.text (.ofString text)).spell := by
  have hpieces (chars : List Char) (hchars : ∀ c ∈ chars, 0x20 ≤ c.toNat) :
      PiecesText (chars.map .char) ((chars.map .char).flatMap Piece.spell) := by
    induction chars using List.reverseRecOn with
    | nil => exact .nil
    | append_singleton chars c ih =>
      rw [List.forall_mem_append, List.forall_mem_singleton] at hchars
      rw [List.map_append, List.map_singleton, List.flatMap_append, List.flatMap_singleton]
      exact .snoc (ih hchars.1) (text_spell_char hchars.2)
  exact .text (hpieces text.toList h)

theorem text_spell_ofNat (n : Nat) :
    (Token.number (.ofNat n)).Text (Token.number (.ofNat n)).spell := by
  have h := Numeral.Text.mk false (unpadded_decimalDigits n) .none .none
  rw [signText, if_neg (by decide), List.nil_append, List.append_nil, List.append_nil] at h
  have hspell : (Token.number (.ofNat n)).spell = (decimalDigits n).map digitChar := by
    simp [Token.spell, Numeral.spell, Numeral.ofNat]
  rw [hspell]
  exact .number h

/-- What a token of a plain value is written as is a text of it. -/
theorem Node.Plain.text_spell {node : Node} (h : node.Plain) :
    ∀ token ∈ node.tokens, token.Text token.spell := by
  induction h with
  | null => exact List.forall_mem_singleton.2 .null
  | bool value =>
    cases value with
    | true => exact List.forall_mem_singleton.2 .true
    | false => exact List.forall_mem_singleton.2 .false
  | number n => exact List.forall_mem_singleton.2 (text_spell_ofNat n)
  | text h => exact List.forall_mem_singleton.2 (text_spell_ofString h)
  | array _ ih =>
    rw [Node.tokens, itemTokens_eq_map]
    exact forall_mem_bracket (.delimiter rfl) (.delimiter rfl) (.delimiter rfl)
      (List.forall_mem_map.2 ih)
  | object hkeys _ ih =>
    rw [Node.tokens, memberTokens_eq_map]
    refine forall_mem_bracket (.delimiter rfl) (.delimiter rfl) (.delimiter rfl)
      (List.forall_mem_map.2 ?_)
    intro member hmember
    obtain ⟨name, hname, hkey⟩ := hkeys member hmember
    rw [memberTokensOf, hkey]
    have hcolon : Token.colon.Text Token.colon.spell := .delimiter rfl
    exact List.forall_mem_cons.2
      ⟨text_spell_ofString hname, List.forall_mem_cons.2 ⟨hcolon, ih member hmember⟩⟩

theorem tokensText_flatMap_spell {list : List Token} (h : ∀ token ∈ list, token.Text token.spell) :
    TokensText list (list.flatMap Token.spell) := by
  induction list with
  | nil => exact .nil nofun
  | cons token list ih =>
    rw [List.forall_mem_cons] at h
    have hblank : Blank [] := nofun
    exact .cons hblank h.1 (ih h.2)

theorem Node.Plain.text_render {node : Node} (h : node.Plain) : node.Text node.render.toList := by
  refine ⟨h.complete, ?_⟩
  rw [Node.render, String.toList_ofList]
  exact tokensText_flatMap_spell h.text_spell

/-- **A written tree reads back.** The text of a plain tree is read as the tree, and nothing is left
behind it. -/
theorem Node.Plain.ofText_render {node : Node} (h : node.Plain) :
    Node.ofText node.render.toList = (node, []) :=
  h.text_render.ofText_eq

end Keyring.Json
