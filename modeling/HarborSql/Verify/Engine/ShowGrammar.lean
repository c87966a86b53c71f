import HarborSql.Engine.ShowParser

/-! What the parser of the `SHOW` statements reads: each statement from its own tokens. -/

namespace HarborSql

/-- What a call returns, and the parser after it. -/
def ShowM.run {α : Type} (m : ShowM α) (p : ShowParser) : Except Fault α × ShowParser := m p

namespace ShowParser

/-- The tokens that are still to be read. -/
def rest (p : ShowParser) : List Token := p.tokens.drop p.index

def skip (p : ShowParser) (n : Nat) : ShowParser := { p with index := p.index + n }

theorem rest_skip (p : ShowParser) (n : Nat) : (p.skip n).rest = p.rest.drop n := by
  rw [rest, rest, List.drop_drop]
  rfl

theorem rest_skip_of_append {p : ShowParser} {used rest : List Token} (h : p.rest = used ++ rest) :
    (p.skip used.length).rest = rest := by
  rw [rest_skip, h, List.drop_left]

theorem skip_skip (p : ShowParser) (m n : Nat) : (p.skip m).skip n = p.skip (m + n) := by
  rw [skip, skip, skip, Nat.add_assoc]

theorem length_rest_le (p : ShowParser) : p.rest.length ≤ p.tokens.length := by
  rw [rest, List.length_drop]
  omega

variable {α β : Type} {p : ShowParser}

theorem run_bind {m : ShowM α} {f : α → ShowM β} :
    (m >>= f).run p =
      match m.run p with
      | (.ok x, p') => (f x).run p'
      | (.error fault, p') => (.error fault, p') := by
  have h : (m >>= f).run p = (ExceptT.bindCont f (m.run p).1 : ShowM β).run (m.run p).2 := rfl
  rw [h]
  cases m.run p with
  | mk x p' => cases x <;> rfl

theorem run_bind_ok {m : ShowM α} {f : α → ShowM β} {x : α} {p' : ShowParser}
    (h : m.run p = (.ok x, p')) : (m >>= f).run p = (f x).run p' := by
  rw [run_bind, h]

theorem run_bind_error {m : ShowM α} {f : α → ShowM β} {fault : Fault} {p' : ShowParser}
    (h : m.run p = (.error fault, p')) : (m >>= f).run p = (.error fault, p') := by
  rw [run_bind, h]

/-! ## Reading given tokens -/

/-- `m` reads `used` in front of `rest`, and returns `x`. -/
def Reads (m : ShowM α) (used : List Token) (x : α) (rest : List Token) : Prop :=
  ∀ p : ShowParser, p.rest = used ++ rest → m.run p = (.ok x, p.skip used.length)

section
variable {m : ShowM α} {f : α → ShowM β} {x : α} {y : β} {used used' rest : List Token}

theorem Reads.bind (hm : Reads m used x (used' ++ rest)) (hf : Reads (f x) used' y rest) :
    Reads (m >>= f) (used ++ used') y rest := by
  intro p hp
  rw [List.append_assoc] at hp
  rw [run_bind_ok (hm p hp), hf _ (rest_skip_of_append hp), skip_skip, List.length_append]

/-- A call that reads nothing. -/
theorem Reads.bind_nil (hm : Reads m [] x (used ++ rest)) (hf : Reads (f x) used y rest) :
    Reads (m >>= f) used y rest := hm.bind hf

theorem Reads.bind_last (hm : Reads m used x rest) (hf : Reads (f x) [] y rest) :
    Reads (m >>= f) used y rest := by
  rw [← List.append_nil used]
  exact hm.bind hf

theorem reads_pure (x : α) (rest : List Token) : Reads (pure x) [] x rest := fun _ _ => rfl

theorem Reads.bind_pure {g : α → β} (hm : Reads m used x rest) :
    Reads (m >>= fun x => pure (g x)) used (g x) rest := hm.bind_last (reads_pure (g x) rest)

theorem Reads.ite {c : Prop} [Decidable c] {m m' : ShowM α} (hc : c) (h : Reads m used x rest) :
    Reads (if c then m else m') used x rest := by
  rwa [if_pos hc]

theorem Reads.ite_not {c : Prop} [Decidable c] {m m' : ShowM α} (hc : ¬ c)
    (h : Reads m' used x rest) : Reads (if c then m else m') used x rest := by
  rwa [if_neg hc]

theorem Reads.test {c : ShowM Bool} {m m' : ShowM α} (hc : Reads c used true (used' ++ rest))
    (h : Reads m used' x rest) :
    Reads (c >>= fun b => if b then m else m') (used ++ used') x rest := hc.bind (.ite rfl h)

theorem Reads.test_not {c : ShowM Bool} {m m' : ShowM α} (hc : Reads c [] false (used ++ rest))
    (h : Reads m' used x rest) : Reads (c >>= fun b => if b then m else m') used x rest :=
  hc.bind_nil (.ite_not Bool.false_ne_true h)

/-- A loop that gets its fuel from the number of tokens. -/
theorem Reads.get {f : ShowParser → ShowM α}
    (h : ∀ p, (used ++ rest).length ≤ p.tokens.length → Reads (f p) used x rest) :
    Reads (MonadState.get >>= f) used x rest := by
  intro p hp
  have hlen := p.length_rest_le
  rw [hp] at hlen
  exact h p hlen p hp

theorem reads_isEnd (rest : List Token) : Reads isEnd [] (decide (rest = [])) rest := by
  intro p hp
  have h : p.tokens.length ≤ p.index ↔ rest = [] := by
    rw [← List.drop_eq_nil_iff]
    exact iff_of_eq (congrArg (· = []) hp)
  show (Except.ok (decide (p.tokens.length ≤ p.index)), p) = _
  rw [decide_eq_decide.mpr h]
  rfl

theorem reads_peek (rest : List Token) : Reads peek [] rest.head? rest := by
  intro p hp
  show (Except.ok p.tokens[p.index]?, p) = _
  rw [← List.head?_drop]
  exact congrArg (fun tokens => (Except.ok (List.head? tokens), p)) hp

theorem reads_advance (token : Token) (rest : List Token) : Reads advance [token] () rest :=
  fun _ _ => rfl

theorem reads_next (token : Token) (rest : List Token) :
    Reads next [token] (some token) rest := by
  refine .bind_nil (reads_peek (token :: rest)) ?_
  exact (reads_advance token rest).bind_pure

theorem reads_next_nil : Reads next [] none [] := by
  refine .bind_nil (reads_peek []) ?_
  exact reads_pure none []

theorem reads_expect (x : α) (rest : List Token) : Reads (expect (some x)) [] x rest :=
  reads_pure x rest

/-! ## Keywords -/

/-- A word that is one keyword is no other. -/
theorem tokenIsKeyword_eq_false {token : Token} {a b : String} (h : tokenIsKeyword token a = true)
    (hab : eqIgnoreAsciiCase a b = false) : tokenIsKeyword token b = false := by
  cases token with
  | word word =>
    have ha : word.value.toList.map Char.toLower = a.toList.map Char.toLower := eq_of_beq h
    show (word.value.toList.map Char.toLower == b.toList.map Char.toLower) = false
    rw [ha]
    exact hab
  | _ => rfl

/-- The first of the tokens is the keyword. -/
def startsWith (keyword : String) (tokens : List Token) : Bool :=
  tokens.head?.any (tokenIsKeyword · keyword)

theorem reads_peekKeyword (keyword : String) (rest : List Token) :
    Reads (peekKeyword keyword) [] (startsWith keyword rest) rest :=
  (reads_peek rest).bind_pure

theorem reads_peekKeyword_not {keyword : String} (h : startsWith keyword rest = false) :
    Reads (peekKeyword keyword) [] false rest := by
  rw [← h]
  exact reads_peekKeyword keyword rest

theorem reads_consumeKeyword {keyword : String} {token : Token}
    (h : tokenIsKeyword token keyword = true) (rest : List Token) :
    Reads (consumeKeyword keyword) [token] true rest :=
  (reads_peekKeyword keyword (token :: rest)).bind_nil <|
    .ite h ((reads_advance token rest).bind_pure)

theorem reads_consumeKeyword_not {keyword : String} (h : startsWith keyword rest = false) :
    Reads (consumeKeyword keyword) [] false rest :=
  (reads_peekKeyword_not h).bind_nil <| .ite_not Bool.false_ne_true (reads_pure false rest)

theorem reads_expectKeyword {keyword : String} {token : Token}
    (h : tokenIsKeyword token keyword = true) (rest : List Token) :
    Reads (expectKeyword keyword) [token] () rest := by
  refine .bind_last (reads_consumeKeyword h rest) ?_
  exact .ite rfl (reads_pure () rest)

theorem reads_consumeToken (token : Token) (rest : List Token) :
    Reads (consumeToken token) [token] true rest :=
  (reads_peek (token :: rest)).bind_nil <| .ite rfl ((reads_advance token rest).bind_pure)

theorem reads_consumeToken_not {token : Token} (h : rest.head? ≠ some token) :
    Reads (consumeToken token) [] false rest :=
  (reads_peek rest).bind_nil <| .ite_not h (reads_pure false rest)

theorem reads_or_left {m m' : ShowM Bool} (h : Reads m used true rest) :
    Reads (m <||> m') used true rest := by
  refine .bind_last h ?_
  exact reads_pure true rest

theorem reads_or_right {m m' : ShowM Bool} {x : Bool} (h : Reads m [] false (used ++ rest))
    (h' : Reads m' used x rest) : Reads (m <||> m') used x rest := by
  refine .bind_nil h ?_
  exact h'

end

/-! ## The grammar -/

end ShowParser

/-- The part of a name that a token spells. -/
def Token.part? : Token → Option String
  | .word { value, .. } => some value
  | .doubleQuotedString value => some value
  | _ => none

/-- The parts of a name, with periods between them. -/
inductive NameTokens : List String → List Token → Prop
  | one {part : String} {token : Token} : token.part? = some part → NameTokens [part] [token]
  | cons {part : String} {parts : List String} {token : Token} {tokens : List Token} :
    token.part? = some part → NameTokens parts tokens →
    NameTokens (part :: parts) (token :: .period :: tokens)

/-- `{ FROM | IN } name`. -/
inductive InNameTokens : ObjectName → List Token → Prop
  | mk {parts : List String} {token : Token} {tokens : List Token} :
    tokenIsKeyword token "FROM" = true ∨ tokenIsKeyword token "IN" = true →
    NameTokens parts tokens → InNameTokens ⟨parts⟩ (token :: tokens)

inductive OptionalInNameTokens : Option ObjectName → List Token → Prop
  | none : OptionalInNameTokens none []
  | some {name : ObjectName} {tokens : List Token} :
    InNameTokens name tokens → OptionalInNameTokens (some name) tokens

/-- `[ [ LIKE ] pattern ]`, the pattern as one literal. -/
inductive OptionalPatternTokens : Option String → List Token → Prop
  | none : OptionalPatternTokens none []
  | bare (pattern : String) : OptionalPatternTokens (some pattern) [.singleQuotedString pattern]
  | like {token : Token} (pattern : String) : tokenIsKeyword token "LIKE" = true →
    OptionalPatternTokens (some pattern) [token, .singleQuotedString pattern]

/-- The tokens of a statement without a partition clause, from the word after `SHOW` on. A keyword
may be quoted, and a part of a name need not be. -/
inductive StatementTokens : MetadataStatement → List Token → Prop
  | catalogs {catalogs : Token} {pattern : Option String} {patternTokens : List Token} :
    tokenIsKeyword catalogs "CATALOGS" = true → OptionalPatternTokens pattern patternTokens →
    StatementTokens (.catalogs pattern) (catalogs :: patternTokens)
  | schemas {schemas : Token} {catalog : Option ObjectName} {pattern : Option String}
    {catalogTokens patternTokens : List Token} :
    tokenIsKeyword schemas "SCHEMAS" = true ∨ tokenIsKeyword schemas "DATABASES" = true →
    OptionalInNameTokens catalog catalogTokens → OptionalPatternTokens pattern patternTokens →
    StatementTokens (.schemas catalog pattern) (schemas :: (catalogTokens ++ patternTokens))
  | tables {tables : Token} {schema : Option ObjectName} {pattern : Option String}
    {schemaTokens patternTokens : List Token} :
    tokenIsKeyword tables "TABLES" = true →
    OptionalInNameTokens schema schemaTokens → OptionalPatternTokens pattern patternTokens →
    StatementTokens (.tables schema pattern) (tables :: (schemaTokens ++ patternTokens))
  | views {views : Token} {schema : Option ObjectName} {pattern : Option String}
    {schemaTokens patternTokens : List Token} :
    tokenIsKeyword views "VIEWS" = true →
    OptionalInNameTokens schema schemaTokens → OptionalPatternTokens pattern patternTokens →
    StatementTokens (.views schema pattern) (views :: (schemaTokens ++ patternTokens))
  | columns {columns : Token} {table : ObjectName} {schema : Option ObjectName}
    {tableTokens schemaTokens : List Token} :
    tokenIsKeyword columns "COLUMNS" = true →
    InNameTokens table tableTokens → OptionalInNameTokens schema schemaTokens →
    StatementTokens (.columns table schema) (columns :: (tableTokens ++ schemaTokens))
  | tableExtended {table extended like : Token} {schema : Option ObjectName}
    {schemaTokens : List Token} (pattern : String) :
    tokenIsKeyword table "TABLE" = true → tokenIsKeyword extended "EXTENDED" = true →
    OptionalInNameTokens schema schemaTokens → tokenIsKeyword like "LIKE" = true →
    StatementTokens (.tableExtended schema pattern none)
      (table :: extended :: (schemaTokens ++ [like, .singleQuotedString pattern]))

namespace ShowParser

/-! ## Names -/

section
variable {display : Token → String} {overflowChecks : Bool} {rest tokens : List Token}

theorem reads_parseIdentifier {part : String} {token : Token} (h : token.part? = some part)
    (rest : List Token) : Reads (parseIdentifier display) [token] part rest := by
  refine .bind_last (reads_next token rest) ?_
  cases token with
  | word | doubleQuotedString =>
    obtain rfl := Option.some.inj h
    exact reads_pure _ rest
  | _ => cases h

theorem reads_objectNameLoop_nil (h : rest.head? ≠ some .period) (fuel : Nat)
    (parts : List String) : Reads (objectNameLoop display (fuel + 1) parts) [] parts rest := by
  refine .bind_nil (reads_consumeToken_not h) ?_
  exact .ite_not Bool.false_ne_true (reads_pure parts rest)

theorem reads_objectNameLoop {parts : List String} (h : NameTokens parts tokens)
    (hrest : rest.head? ≠ some .period) (fuel : Nat) (hfuel : tokens.length < fuel)
    (before : List String) :
    Reads (objectNameLoop display fuel before) (.period :: tokens) (before ++ parts) rest := by
  induction h generalizing fuel before with
  | one hpart =>
    obtain ⟨fuel, rfl⟩ := Nat.exists_eq_add_of_lt hfuel
    refine .bind (reads_consumeToken .period _) (.ite rfl ?_)
    refine .bind_last (reads_parseIdentifier hpart rest) ?_
    rw [List.length_singleton, Nat.add_comm 1]
    exact reads_objectNameLoop_nil hrest fuel _
  | @cons part parts token tokens hpart _ ih =>
    obtain _ | fuel := fuel
    · cases hfuel
    · refine .bind (reads_consumeToken .period _) (.ite rfl ?_)
      refine .bind (reads_parseIdentifier hpart _) ?_
      have := ih fuel (by rw [List.length_cons, List.length_cons] at hfuel; omega)
        (before ++ [part])
      rwa [List.append_assoc] at this

theorem reads_parseObjectName {parts : List String} (h : NameTokens parts tokens)
    (hrest : rest.head? ≠ some .period) :
    Reads (parseObjectName display) tokens ⟨parts⟩ rest := by
  cases h with
  | one hpart =>
    refine .bind_last (reads_parseIdentifier hpart rest) (.get fun p _ => ?_)
    exact (reads_objectNameLoop_nil hrest _ _).bind_pure
  | @cons part parts token tokens hpart hparts =>
    refine .bind (reads_parseIdentifier hpart _) (.get fun p hp => ?_)
    refine (reads_objectNameLoop hparts hrest _ ?_ [part]).bind_pure
    rw [List.length_append, List.length_cons] at hp
    omega

/-- What may follow a name. -/
structure AfterName (rest : List Token) : Prop where
  period : rest.head? ≠ some .period
  keyword_from : startsWith "FROM" rest = false
  keyword_in : startsWith "IN" rest = false

theorem reads_inName {token : Token}
    (h : tokenIsKeyword token "FROM" = true ∨ tokenIsKeyword token "IN" = true)
    (rest : List Token) :
    Reads (consumeKeyword "FROM" <||> consumeKeyword "IN") [token] true rest := by
  cases h with
  | inl h => exact reads_or_left (reads_consumeKeyword h rest)
  | inr h =>
    refine reads_or_right (reads_consumeKeyword_not ?_) (reads_consumeKeyword h rest)
    exact tokenIsKeyword_eq_false h rfl

theorem reads_parseRequiredInName {name : ObjectName} (h : InNameTokens name tokens)
    (hrest : rest.head? ≠ some .period) (message : String) :
    Reads (parseRequiredInName display message) tokens name rest := by
  obtain ⟨hkeyword, hname⟩ := h
  exact .bind (reads_inName hkeyword _) (.ite rfl (reads_parseObjectName hname hrest))

theorem reads_parseOptionalInName {name : Option ObjectName} (h : OptionalInNameTokens name tokens)
    (hrest : AfterName rest) : Reads (parseOptionalInName display) tokens name rest := by
  cases h with
  | none =>
    refine .bind_nil (x := false) ?_ (.ite_not Bool.false_ne_true (reads_pure none rest))
    exact reads_or_right (reads_consumeKeyword_not hrest.keyword_from)
      (reads_consumeKeyword_not hrest.keyword_in)
  | some h =>
    obtain ⟨hkeyword, hname⟩ := h
    refine .bind (reads_inName hkeyword _) (.ite rfl ?_)
    exact (reads_parseObjectName hname hrest.period).bind_pure

theorem startsWith_optionalInName {name : Option ObjectName} {keyword : String}
    (h : OptionalInNameTokens name tokens) (hfrom : eqIgnoreAsciiCase "FROM" keyword = false)
    (hin : eqIgnoreAsciiCase "IN" keyword = false) (hrest : startsWith keyword rest = false) :
    startsWith keyword (tokens ++ rest) = false := by
  cases h with
  | none => exact hrest
  | some h =>
    obtain ⟨hkeyword | hkeyword, -⟩ := h
    · exact tokenIsKeyword_eq_false hkeyword hfrom
    · exact tokenIsKeyword_eq_false hkeyword hin

/-! ## Patterns -/

theorem startsWith_optionalPattern {pattern : Option String} {keyword : String}
    (h : OptionalPatternTokens pattern tokens) (hlike : eqIgnoreAsciiCase "LIKE" keyword = false) :
    startsWith keyword tokens = false := by
  cases h with
  | like _ h => exact tokenIsKeyword_eq_false h hlike
  | _ => rfl

theorem head?_optionalPattern {pattern : Option String} (h : OptionalPatternTokens pattern tokens) :
    tokens.head? ≠ some .period := by
  cases h with
  | none | bare => exact nofun
  | @like token _ h =>
    intro heq
    obtain rfl := Option.some.inj heq
    cases h

theorem afterName_optionalPattern {pattern : Option String}
    (h : OptionalPatternTokens pattern tokens) : AfterName tokens where
  period := head?_optionalPattern h
  keyword_from := startsWith_optionalPattern h rfl
  keyword_in := startsWith_optionalPattern h rfl

theorem reads_patternLoop_nil {stop : Token → Bool}
    (hrest : ∀ token ∈ rest.head?, stop token = true) (fuel : Nat) (parts : List String) :
    Reads (patternLoop display stop (fuel + 1) parts) [] parts rest := by
  refine .bind_nil (reads_isEnd rest) ?_
  cases rest with
  | nil => exact .ite rfl (reads_pure parts [])
  | cons token rest =>
    refine .ite_not (by simp) (.bind_nil (reads_peek _) (.bind_nil (reads_expect token _) ?_))
    exact .ite (hrest token rfl) (reads_pure parts _)

/-- A literal is the whole pattern. -/
theorem reads_parsePatternUntil {stop : Token → Bool} {pattern : String}
    (hstop : stop (.singleQuotedString pattern) = false)
    (hrest : ∀ token ∈ rest.head?, stop token = true) :
    Reads (parsePatternUntil display stop) [.singleQuotedString pattern] pattern rest := by
  refine .get fun p hp => .bind_last (x := [pattern]) ?_ (.ite_not Bool.false_ne_true ?_)
  · obtain ⟨fuel, hfuel⟩ : ∃ fuel, p.tokens.length = fuel + 1 :=
      Nat.exists_eq_add_of_le' (Nat.le_trans (Nat.le_add_left 1 _) hp)
    rw [hfuel]
    refine .bind_nil (reads_isEnd _) (.ite_not (by simp) ?_)
    refine .bind_nil (reads_peek _) (.bind_nil (reads_expect _ _) (.ite_not (by simp [hstop]) ?_))
    refine .bind_last (reads_next _ _) (.bind_nil (reads_expect _ _) ?_)
    exact .bind_nil (reads_pure pattern rest) (reads_patternLoop_nil hrest fuel [pattern])
  · have hjoin : String.join [pattern] = pattern := by simp [String.join]
    rw [hjoin]
    exact reads_pure pattern rest

theorem reads_parsePatternUntilEnd (pattern : String) :
    Reads (parsePatternUntilEnd display) [.singleQuotedString pattern] pattern [] :=
  reads_parsePatternUntil rfl nofun

theorem reads_parseOptionalPattern {pattern : Option String}
    (h : OptionalPatternTokens pattern tokens) :
    Reads (parseOptionalPattern display) tokens pattern [] := by
  cases h with
  | none =>
    refine .bind_nil (reads_isEnd []) ?_
    exact .ite rfl (reads_pure none [])
  | bare pattern =>
    refine .bind_nil (reads_isEnd _) (.ite_not (by simp) ?_)
    refine .bind_nil (reads_consumeKeyword_not rfl) (.ite_not Bool.false_ne_true ?_)
    exact (reads_parsePatternUntilEnd pattern).bind_pure
  | like pattern h =>
    refine .bind_nil (reads_isEnd _) (.ite_not (by simp) ?_)
    refine .bind (reads_consumeKeyword h _) (.ite rfl ?_)
    exact (reads_parsePatternUntilEnd pattern).bind_pure

/-! ## Statements -/

theorem reads_expectEnd : Reads (expectEnd display) [] () [] := by
  refine .bind_nil (reads_isEnd []) ?_
  exact .ite rfl (reads_pure () [])

/-- A statement that ends with an optional pattern. -/
theorem reads_pattern_end {pattern : Option String} (h : OptionalPatternTokens pattern tokens)
    (statement : Option String → MetadataStatement) :
    Reads (do
      let pattern ← parseOptionalPattern display
      expectEnd display
      return statement pattern) tokens (statement pattern) [] := by
  rw [← List.append_nil tokens]
  refine .bind (reads_parseOptionalPattern h) ?_
  exact .bind_nil reads_expectEnd (reads_pure _ [])

theorem reads_parseCatalogs {pattern : Option String} (h : OptionalPatternTokens pattern tokens) :
    Reads (parseCatalogs display) tokens (.catalogs pattern) [] := by
  refine .bind_nil (x := false) ?_ (.ite_not Bool.false_ne_true (reads_pattern_end h .catalogs))
  have hin : startsWith "IN" tokens = false := startsWith_optionalPattern h rfl
  have hfrom : startsWith "FROM" tokens = false := startsWith_optionalPattern h rfl
  rw [List.append_nil]
  exact reads_or_right (reads_peekKeyword_not hfrom) (reads_peekKeyword_not hin)

/-- A statement that ends with an optional name and an optional pattern. -/
theorem reads_inName_pattern_end {name : Option ObjectName} {pattern : Option String}
    {nameTokens patternTokens : List Token} (hname : OptionalInNameTokens name nameTokens)
    (hpattern : OptionalPatternTokens pattern patternTokens)
    (statement : Option ObjectName → Option String → MetadataStatement) :
    Reads (do
      let name ← parseOptionalInName display
      let pattern ← parseOptionalPattern display
      expectEnd display
      return statement name pattern) (nameTokens ++ patternTokens) (statement name pattern) [] := by
  refine .bind (reads_parseOptionalInName hname ?_) (reads_pattern_end hpattern (statement name))
  rw [List.append_nil]
  exact afterName_optionalPattern hpattern

/-- A word that may not stand where the clauses begin. -/
theorem startsWith_inName_pattern {name : Option ObjectName} {pattern : Option String}
    {nameTokens patternTokens : List Token} {keyword : String}
    (hname : OptionalInNameTokens name nameTokens)
    (hpattern : OptionalPatternTokens pattern patternTokens)
    (hfrom : eqIgnoreAsciiCase "FROM" keyword = false)
    (hin : eqIgnoreAsciiCase "IN" keyword = false)
    (hlike : eqIgnoreAsciiCase "LIKE" keyword = false) :
    startsWith keyword (nameTokens ++ patternTokens) = false :=
  startsWith_optionalInName hname hfrom hin (startsWith_optionalPattern hpattern hlike)

theorem reads_parseSchemas {catalog : Option ObjectName} {pattern : Option String}
    {catalogTokens patternTokens : List Token}
    (hcatalog : OptionalInNameTokens catalog catalogTokens)
    (hpattern : OptionalPatternTokens pattern patternTokens) :
    Reads (parseSchemas display) (catalogTokens ++ patternTokens) (.schemas catalog pattern)
      [] := by
  refine .bind_nil (x := false) (reads_peekKeyword_not ?_) (.ite_not Bool.false_ne_true ?_)
  · rw [List.append_nil]
    exact startsWith_inName_pattern hcatalog hpattern rfl rfl rfl
  · exact reads_inName_pattern_end hcatalog hpattern .schemas

theorem reads_parseTables {schema : Option ObjectName} {pattern : Option String}
    {schemaTokens patternTokens : List Token} (hschema : OptionalInNameTokens schema schemaTokens)
    (hpattern : OptionalPatternTokens pattern patternTokens) :
    Reads (parseTables display) (schemaTokens ++ patternTokens) (.tables schema pattern) [] := by
  refine .bind_nil (x := false) ?_ (.ite_not Bool.false_ne_true ?_)
  · rw [List.append_nil]
    have hextended : startsWith "EXTENDED" (schemaTokens ++ patternTokens) = false :=
      startsWith_inName_pattern hschema hpattern rfl rfl rfl
    have hhistory : startsWith "HISTORY" (schemaTokens ++ patternTokens) = false :=
      startsWith_inName_pattern hschema hpattern rfl rfl rfl
    exact reads_or_right (reads_peekKeyword_not hextended) (reads_peekKeyword_not hhistory)
  · exact reads_inName_pattern_end hschema hpattern .tables

theorem reads_parseColumns {table : ObjectName} {schema : Option ObjectName}
    {tableTokens schemaTokens : List Token} (htable : InNameTokens table tableTokens)
    (hschema : OptionalInNameTokens schema schemaTokens) :
    Reads (parseColumns display) (tableTokens ++ schemaTokens) (.columns table schema) [] := by
  refine .bind (reads_parseRequiredInName htable ?_ _) ?_
  · cases hschema with
    | none => exact nofun
    | some h =>
      obtain ⟨hkeyword, -⟩ := h
      intro heq
      obtain rfl := Option.some.inj heq
      obtain h | h := hkeyword <;> cases h
  · refine .bind_last (reads_parseOptionalInName hschema ⟨nofun, rfl, rfl⟩) ?_
    exact .bind_nil reads_expectEnd (reads_pure _ [])

theorem reads_parseTableExtended {extended like : Token} {schema : Option ObjectName}
    {schemaTokens partitionTokens : List Token} {partition : Option String}
    (hextended : tokenIsKeyword extended "EXTENDED" = true)
    (hschema : OptionalInNameTokens schema schemaTokens)
    (hlike : tokenIsKeyword like "LIKE" = true) (pattern : String)
    (hstart : ∀ token ∈ partitionTokens.head?, tokenIsKeyword token "PARTITION" = true)
    (hpartition :
      Reads (parseOptionalPartition display overflowChecks) partitionTokens partition []) :
    Reads (parseTableExtended display overflowChecks)
      (extended :: (schemaTokens ++ (like :: .singleQuotedString pattern :: partitionTokens)))
      (.tableExtended schema pattern partition) [] := by
  refine .bind (reads_expectKeyword hextended _) (.bind (reads_parseOptionalInName hschema ?_) ?_)
  · exact {
      period := by
        intro heq
        obtain rfl := Option.some.inj heq
        cases hlike
      keyword_from := tokenIsKeyword_eq_false hlike rfl
      keyword_in := tokenIsKeyword_eq_false hlike rfl }
  · refine .bind (reads_expectKeyword hlike _) (.bind (reads_parsePatternUntil rfl ?_) ?_)
    · rwa [List.append_nil]
    · exact .bind_last hpartition (.bind_nil reads_expectEnd (reads_pure _ []))

theorem reads_parseOptionalPartition_nil :
    Reads (parseOptionalPartition display overflowChecks) [] none [] :=
  .bind_nil (reads_consumeKeyword_not rfl) (.ite rfl (reads_pure none []))

/-- A branch for another keyword is passed by. -/
theorem Reads.other {α : Type} {m m' : ShowM α} {x : α} {token : Token} {keyword other : String}
    (h : tokenIsKeyword token keyword = true) (hne : eqIgnoreAsciiCase keyword other = false)
    (hm : Reads m' (token :: tokens) x rest) :
    Reads (consumeKeyword other >>= fun b => if b then m else m') (token :: tokens) x rest :=
  .test_not (reads_consumeKeyword_not (tokenIsKeyword_eq_false h hne)) hm

theorem Reads.other_schemas {α : Type} {m m' : ShowM α} {x : α} {token : Token} {keyword : String}
    (h : tokenIsKeyword token keyword = true)
    (hschemas : eqIgnoreAsciiCase keyword "SCHEMAS" = false)
    (hdatabases : eqIgnoreAsciiCase keyword "DATABASES" = false)
    (hm : Reads m' (token :: tokens) x rest) :
    Reads ((consumeKeyword "SCHEMAS" <||> consumeKeyword "DATABASES") >>=
      fun b => if b then m else m') (token :: tokens) x rest :=
  .test_not (reads_or_right (reads_consumeKeyword_not (tokenIsKeyword_eq_false h hschemas))
    (reads_consumeKeyword_not (tokenIsKeyword_eq_false h hdatabases))) hm

/-- The branch of a keyword. -/
theorem Reads.this {α : Type} {m m' : ShowM α} {x : α} {token : Token} {keyword : String}
    (h : tokenIsKeyword token keyword = true) (hm : Reads m tokens x rest) :
    Reads (consumeKeyword keyword >>= fun b => if b then m else m') (token :: tokens) x rest :=
  .test (reads_consumeKeyword h _) hm

theorem reads_schemas {token : Token}
    (h : tokenIsKeyword token "SCHEMAS" = true ∨ tokenIsKeyword token "DATABASES" = true)
    (rest : List Token) :
    Reads (consumeKeyword "SCHEMAS" <||> consumeKeyword "DATABASES") [token] true rest := by
  cases h with
  | inl h => exact reads_or_left (reads_consumeKeyword h rest)
  | inr h =>
    refine reads_or_right (reads_consumeKeyword_not ?_) (reads_consumeKeyword h rest)
    exact tokenIsKeyword_eq_false h rfl

theorem reads_parse {first : Token} {statement : MetadataStatement}
    (hshow : tokenIsKeyword first "SHOW" = true) (h : StatementTokens statement tokens) :
    Reads (parse display overflowChecks) (first :: tokens) statement [] := by
  refine .bind (reads_expectKeyword hshow _) ?_
  cases h with
  | catalogs h hpattern => exact .this h (reads_parseCatalogs hpattern)
  | schemas h hcatalog hpattern =>
    refine .test_not (reads_consumeKeyword_not ?_) ?_
    · obtain h | h := h
      · exact tokenIsKeyword_eq_false h rfl
      · exact tokenIsKeyword_eq_false h rfl
    · exact .test (reads_schemas h _) (reads_parseSchemas hcatalog hpattern)
  | tables h hschema hpattern =>
    refine .other h rfl (.other_schemas h rfl rfl ?_)
    exact .this h (reads_parseTables hschema hpattern)
  | views h hschema hpattern =>
    refine .other h rfl (.other_schemas h rfl rfl ?_)
    refine .other h rfl ?_
    exact .this h (reads_inName_pattern_end hschema hpattern .views)
  | columns h htable hschema =>
    refine .other h rfl (.other_schemas h rfl rfl ?_)
    refine .other h rfl (.other h rfl ?_)
    exact .this h (reads_parseColumns htable hschema)
  | tableExtended pattern h hextended hschema hlike =>
    refine .other h rfl (.other_schemas h rfl rfl ?_)
    refine .other h rfl (.other h rfl (.other h rfl ?_))
    exact .this h (reads_parseTableExtended hextended hschema hlike pattern nofun
      reads_parseOptionalPartition_nil)

end

end ShowParser

end HarborSql
