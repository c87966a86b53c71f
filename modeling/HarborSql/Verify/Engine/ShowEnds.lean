import HarborSql.Verify.Engine.ShowGrammar

/-! How the parser of the `SHOW` statements ends on any tokens. -/

namespace HarborSql

/-! ## Parentheses -/

/-- Tokens whose parentheses match. -/
inductive Balanced : List Token → Prop
  | nil : Balanced []
  | token {token : Token} {tokens : List Token} : token ≠ .lParen → token ≠ .rParen →
    Balanced tokens → Balanced (token :: tokens)
  | parens {inner tokens : List Token} : Balanced inner → Balanced tokens →
    Balanced (.lParen :: (inner ++ .rParen :: tokens))

/-- One pair of parentheses around balanced tokens. -/
def Encloses (clause : List Token) : Prop :=
  ∃ inner, Balanced inner ∧ clause = .lParen :: (inner ++ [.rParen])

/-- Balanced tokens, each time with a closing parenthesis after them. -/
def Closes : Nat → List Token → Prop
  | 0, tokens => tokens = []
  | depth + 1, tokens => ∃ inner rest, Balanced inner ∧ tokens = inner ++ .rParen :: rest ∧
    Closes depth rest

theorem Closes.token {depth : Nat} {token : Token} {tokens : List Token} (hl : token ≠ .lParen)
    (hr : token ≠ .rParen) (h : Closes (depth + 1) tokens) :
    Closes (depth + 1) (token :: tokens) := by
  obtain ⟨inner, rest, hinner, rfl, hrest⟩ := h
  exact ⟨token :: inner, rest, .token hl hr hinner, rfl, hrest⟩

theorem Closes.lParen {depth : Nat} {tokens : List Token} (h : Closes (depth + 2) tokens) :
    Closes (depth + 1) (.lParen :: tokens) := by
  obtain ⟨inner, _, hinner, rfl, inner', rest, hinner', rfl, hrest⟩ := h
  exact ⟨_, rest, .parens hinner hinner', by simp, hrest⟩

theorem Closes.rParen {depth : Nat} {tokens : List Token} (h : Closes depth tokens) :
    Closes (depth + 1) (.rParen :: tokens) := ⟨[], tokens, .nil, rfl, h⟩

theorem Closes.encloses {tokens : List Token} (h : Closes 1 tokens) :
    Encloses (.lParen :: tokens) := by
  obtain ⟨inner, _, hinner, rfl, rfl⟩ := h
  exact ⟨inner, hinner, rfl⟩

/-- `TABLE EXTENDED` with a partition clause. It begins at the first `PARTITION` after `LIKE`. -/
inductive PartitionTokens (schema : Option ObjectName) : List Token → Prop
  | mk {table extended like partition : Token} {schemaTokens pattern clause : List Token} :
    tokenIsKeyword table "TABLE" = true → tokenIsKeyword extended "EXTENDED" = true →
    OptionalInNameTokens schema schemaTokens → tokenIsKeyword like "LIKE" = true →
    (∀ token ∈ pattern, tokenIsKeyword token "PARTITION" = false) →
    tokenIsKeyword partition "PARTITION" = true → Encloses clause →
    PartitionTokens schema
      (table :: extended :: (schemaTokens ++ like :: (pattern ++ partition :: clause)))

namespace ShowParser

variable {α β : Type} {p : ShowParser}

/-! ## Any tokens -/

/-- How a call may end: with an error, with a value that `Q` relates to the tokens it read and to
those after them, or with a panic if `overflow` holds. -/
inductive Outcome (overflow : Prop) (m : ShowM α) (p : ShowParser)
    (Q : α → List Token → List Token → Prop) : Prop
  | ok {x : α} {used rest : List Token} : m.run p = (.ok x, p.skip used.length) →
    p.rest = used ++ rest → Q x used rest → Outcome overflow m p Q
  | error {e : HarborError} {p' : ShowParser} : m.run p = (.error (.error e), p') →
    Outcome overflow m p Q
  | panicked {p' : ShowParser} : m.run p = (.error .panicked, p') → overflow →
    Outcome overflow m p Q

theorem Outcome.of_ok {overflow : Prop} {m : ShowM α} {Q : α → List Token → List Token → Prop}
    {x : α} {p' : ShowParser} (h : Outcome overflow m p Q) (hrun : m.run p = (.ok x, p')) :
    ∃ used rest, p' = p.skip used.length ∧ p.rest = used ++ rest ∧ Q x used rest := by
  obtain ⟨hrun', hrest, hQ⟩ | hrun' | ⟨hrun', -⟩ := h
  · obtain ⟨hx, rfl⟩ := Prod.mk.inj (hrun.symm.trans hrun')
    obtain rfl := Except.ok.inj hx
    exact ⟨_, _, rfl, hrest, hQ⟩
  · cases hrun.symm.trans hrun'
  · cases hrun.symm.trans hrun'

theorem Outcome.of_error {overflow : Prop} {m : ShowM α} {Q : α → List Token → List Token → Prop}
    {fault : Fault} {p' : ShowParser} (h : Outcome overflow m p Q)
    (hrun : m.run p = (.error fault, p')) :
    (∃ e, fault = .error e) ∨ fault = .panicked ∧ overflow := by
  obtain ⟨hrun', -⟩ | ⟨hrun'⟩ | ⟨hrun', hover⟩ := h
  · cases hrun.symm.trans hrun'
  · exact .inl ⟨_, Except.error.inj (Prod.mk.inj (hrun.symm.trans hrun')).1⟩
  · exact .inr ⟨Except.error.inj (Prod.mk.inj (hrun.symm.trans hrun')).1, hover⟩

def Ends (overflow : Prop) (m : ShowM α) (tokens : List Token)
    (Q : α → List Token → List Token → Prop) : Prop :=
  ∀ p : ShowParser, p.rest = tokens → Outcome overflow m p Q

section
variable {overflow : Prop} {m : ShowM α} {f : α → ShowM β} {x : α} {used rest tokens : List Token}
  {P Q : α → List Token → List Token → Prop} {R : β → List Token → List Token → Prop}

theorem Ends.of_reads (h : Reads m used x rest) (hQ : Q x used rest) :
    Ends overflow m (used ++ rest) Q := fun p hp => .ok (h p hp) hp hQ

theorem ends_pure (hQ : Q x [] tokens) : Ends overflow (pure x) tokens Q :=
  .of_reads (reads_pure x tokens) hQ

theorem ends_unsupported (message : String) : Ends overflow (unsupported message) tokens Q :=
  fun _ _ => .error rfl

theorem Ends.bind (hm : Ends overflow m tokens P)
    (hf : ∀ x used rest, tokens = used ++ rest → P x used rest →
      Ends overflow (f x) rest fun y used' => R y (used ++ used')) :
    Ends overflow (m >>= f) tokens R := by
  intro p hp
  obtain ⟨hrun, hrest, hP⟩ | hrun | ⟨hrun, hover⟩ := hm p hp
  · obtain ⟨hrun', hrest', hR⟩ | hrun' | ⟨hrun', hover⟩ :=
      hf _ _ _ (hp.symm.trans hrest) hP _ (rest_skip_of_append hrest)
    · refine .ok ?_ ?_ hR
      · rw [run_bind_ok hrun, hrun', skip_skip, List.length_append]
      · rw [rest_skip_of_append hrest] at hrest'
        rw [hrest, hrest', List.append_assoc]
    · exact .error (by rw [run_bind_ok hrun, hrun'])
    · exact .panicked (by rw [run_bind_ok hrun, hrun']) hover
  · exact .error (run_bind_error hrun)
  · exact .panicked (run_bind_error hrun) hover

theorem Ends.mono (h : Ends overflow m tokens P)
    (hPQ : ∀ x used rest, tokens = used ++ rest → P x used rest → Q x used rest) :
    Ends overflow m tokens Q := by
  intro p hp
  obtain ⟨hrun, hrest, hP⟩ | hrun | ⟨hrun, hover⟩ := h p hp
  · exact .ok hrun hrest (hPQ _ _ _ (hp.symm.trans hrest) hP)
  · exact .error hrun
  · exact .panicked hrun hover

theorem Ends.bind_reads (hm : Reads m used x rest)
    (hf : Ends overflow (f x) rest fun y used' => R y (used ++ used')) :
    Ends overflow (m >>= f) (used ++ rest) R := by
  refine .bind (.of_reads (Q := fun y u r => y = x ∧ u = used ∧ r = rest) hm ⟨rfl, rfl, rfl⟩) ?_
  rintro _ _ _ - ⟨rfl, rfl, rfl⟩
  exact hf

theorem Ends.bind_still {C : α → Prop} (hm : Ends overflow m tokens fun x used _ => used = [] ∧ C x)
    (hf : ∀ x, C x → Ends overflow (f x) tokens R) : Ends overflow (m >>= f) tokens R := by
  refine .bind hm ?_
  rintro x used rest htokens ⟨rfl, hC⟩
  rw [List.nil_append] at htokens
  subst htokens
  exact hf x hC

/-- A call that reads nothing. -/
theorem Ends.bind_nil (hm : Reads m [] x tokens) (hf : Ends overflow (f x) tokens R) :
    Ends overflow (m >>= f) tokens R := .bind_reads hm hf

theorem Ends.get {f : ShowParser → ShowM α}
    (h : ∀ p, p.rest = tokens → tokens.length ≤ p.tokens.length → Ends overflow (f p) tokens Q) :
    Ends overflow (MonadState.get >>= f) tokens Q := by
  intro p hp
  have hlen := p.length_rest_le
  rw [hp] at hlen
  obtain ⟨hrun, hrest, hQ⟩ | hrun | ⟨hrun, hover⟩ := h p hp hlen p hp
  · exact .ok hrun hrest hQ
  · exact .error hrun
  · exact .panicked hrun hover

theorem Ends.ite {c : Prop} [Decidable c] {m m' : ShowM α} (h : c → Ends overflow m tokens Q)
    (h' : ¬ c → Ends overflow m' tokens Q) : Ends overflow (if c then m else m') tokens Q := by
  split
  · exact h ‹_›
  · exact h' ‹_›

/-! ### Words -/

theorem ends_consumeKeyword (keyword : String) (tokens : List Token) :
    Ends overflow (consumeKeyword keyword) tokens fun b used _ =>
      if b then ∃ token, used = [token] ∧ tokenIsKeyword token keyword = true else used = [] := by
  cases h : startsWith keyword tokens with
  | false => exact .of_reads (reads_consumeKeyword_not h) rfl
  | true =>
    cases tokens with
    | nil => cases h
    | cons token tokens => exact .of_reads (reads_consumeKeyword h tokens) ⟨token, rfl, h⟩

theorem ends_expectKeyword (keyword : String) (tokens : List Token) :
    Ends overflow (expectKeyword keyword) tokens fun _ used _ =>
      ∃ token, used = [token] ∧ tokenIsKeyword token keyword = true := by
  refine .bind (ends_consumeKeyword keyword tokens) fun b used rest _ h => ?_
  cases b with
  | false => exact ends_unsupported _
  | true =>
    refine ends_pure ?_
    rw [List.append_nil]
    exact h

theorem ends_consumeToken (token : Token) (tokens : List Token) :
    Ends overflow (consumeToken token) tokens fun b used _ =>
      used = if b then [token] else [] := by
  by_cases h : tokens.head? = some token
  · obtain ⟨rest, rfl⟩ := List.head?_eq_some_iff.mp h
    exact .of_reads (reads_consumeToken token rest) rfl
  · exact .of_reads (reads_consumeToken_not h) rfl

/-- One of two words. -/
theorem ends_or (left right : String) (tokens : List Token) :
    Ends overflow (consumeKeyword left <||> consumeKeyword right) tokens fun b used _ =>
      if b then ∃ token, used = [token] ∧
        (tokenIsKeyword token left = true ∨ tokenIsKeyword token right = true)
      else used = [] := by
  refine .bind (ends_consumeKeyword left tokens) fun b used rest _ h => ?_
  cases b with
  | true =>
    obtain ⟨token, rfl, h⟩ := h
    exact ends_pure ⟨token, rfl, .inl h⟩
  | false =>
    obtain rfl := h
    refine (ends_consumeKeyword right rest).mono fun b used rest _ h => ?_
    cases b with
    | true =>
      obtain ⟨token, rfl, h⟩ := h
      exact ⟨token, rfl, .inr h⟩
    | false => exact h

/-! ### Names -/

variable {display : Token → String}

theorem ends_parseIdentifier (tokens : List Token) :
    Ends overflow (parseIdentifier display) tokens fun part used _ =>
      ∃ token, used = [token] ∧ token.part? = some part := by
  cases tokens with
  | nil => exact .bind_reads reads_next_nil (ends_unsupported _)
  | cons token tokens =>
    refine .bind_reads (reads_next token tokens) ?_
    cases token with
    | word | doubleQuotedString => exact ends_pure ⟨_, rfl, rfl⟩
    | _ => exact ends_unsupported _

/-- What the loop reads after the first part: nothing, or a period and the other parts. -/
theorem ends_objectNameLoop (fuel : Nat) (before : List String) (tokens : List Token)
    (hfuel : tokens.length < fuel) :
    Ends overflow (objectNameLoop display fuel before) tokens fun parts used _ =>
      ∃ after, parts = before ++ after ∧ (after = [] ∧ used = [] ∨
        ∃ tokens, used = .period :: tokens ∧ NameTokens after tokens) := by
  induction fuel generalizing before tokens with
  | zero => cases hfuel
  | succ fuel ih =>
    refine .bind (ends_consumeToken .period tokens) fun b used rest hrest hused => ?_
    cases b with
    | false =>
      obtain rfl := hused
      exact ends_pure ⟨[], (List.append_nil before).symm, .inl ⟨rfl, rfl⟩⟩
    | true =>
      obtain rfl := hused
      refine .bind (ends_parseIdentifier rest) ?_
      rintro part _ rest' rfl ⟨token, rfl, hpart⟩
      have hlen : rest'.length < fuel := by
        rw [hrest] at hfuel
        simp only [List.length_append, List.length_singleton] at hfuel
        omega
      refine (ih (before ++ [part]) rest' hlen).mono ?_
      rintro _ _ _ - ⟨after, rfl, ⟨rfl, rfl⟩ | ⟨tokens', rfl, hafter⟩⟩
      · exact ⟨[part], List.append_nil _, .inr ⟨[token], rfl, .one hpart⟩⟩
      · refine ⟨part :: after, List.append_assoc .., .inr ⟨_, rfl, .cons hpart hafter⟩⟩

theorem ends_parseObjectName (tokens : List Token) :
    Ends overflow (parseObjectName display) tokens fun name used _ =>
      NameTokens name.parts used := by
  refine .bind (ends_parseIdentifier tokens) ?_
  rintro part _ rest - ⟨token, rfl, hpart⟩
  refine .get fun p _ hlen => .bind (ends_objectNameLoop _ [part] rest (by omega)) ?_
  rintro _ _ rest' - ⟨after, rfl, ⟨rfl, rfl⟩ | ⟨tokens', rfl, hafter⟩⟩
  · exact ends_pure (.one hpart)
  · refine ends_pure ?_
    rw [List.append_nil]
    exact .cons hpart hafter

theorem ends_parseRequiredInName (message : String) (tokens : List Token) :
    Ends overflow (parseRequiredInName display message) tokens fun name used _ =>
      InNameTokens name used := by
  refine .bind (ends_or "FROM" "IN" tokens) fun b used rest _ h => ?_
  cases b with
  | false => exact ends_unsupported message
  | true =>
    obtain ⟨token, rfl, hkeyword⟩ := h
    exact (ends_parseObjectName rest).mono fun _ _ _ _ hname => .mk hkeyword hname

theorem ends_parseOptionalInName (tokens : List Token) :
    Ends overflow (parseOptionalInName display) tokens fun name used _ =>
      OptionalInNameTokens name used := by
  refine .bind (ends_or "FROM" "IN" tokens) fun b used rest _ h => ?_
  cases b with
  | false =>
    obtain rfl := h
    exact ends_pure .none
  | true =>
    obtain ⟨token, rfl, hkeyword⟩ := h
    refine .bind (ends_parseObjectName rest) fun name used rest _ hname => ends_pure ?_
    rw [List.append_nil]
    exact .some (.mk hkeyword hname)

/-! ### Patterns -/

theorem ends_patternToken (token : Token) (tokens : List Token) :
    Ends overflow (patternToken display token) tokens fun _ used _ => used = [] ∧ True := by
  cases token with
  | whitespace w =>
    cases w with
    | space => exact ends_pure ⟨rfl, trivial⟩
    | _ => exact ends_unsupported _
  | semiColon | other => exact ends_unsupported _
  | _ => exact ends_pure ⟨rfl, trivial⟩

theorem ends_patternLoop (stop : Token → Bool) (fuel : Nat) (parts : List String)
    (tokens : List Token) (hfuel : tokens.length < fuel) :
    Ends overflow (patternLoop display stop fuel parts) tokens fun _ used rest =>
      (∀ token ∈ used, stop token = false) ∧ (∀ token ∈ rest.head?, stop token = true) := by
  induction fuel generalizing parts tokens with
  | zero => cases hfuel
  | succ fuel ih =>
    refine .bind_nil (reads_isEnd tokens) ?_
    cases tokens with
    | nil => exact ends_pure ⟨nofun, nofun⟩
    | cons token tokens =>
      refine .bind_nil (reads_peek _) (.bind_nil (reads_expect token _) (.ite ?_ ?_))
      · intro hstop
        refine ends_pure ⟨nofun, fun t ht => ?_⟩
        obtain rfl := Option.some.inj ht
        exact hstop
      · intro hstop
        refine .bind_reads (reads_next token tokens) (.bind_nil (reads_expect token _) ?_)
        refine .bind_still (ends_patternToken token tokens) fun part _ => ?_
        refine (ih _ _ (Nat.lt_of_succ_lt_succ hfuel)).mono ?_
        rintro _ used rest - ⟨hused, hrest⟩
        refine ⟨fun t ht => ?_, hrest⟩
        obtain rfl | ht := List.mem_cons.mp ht
        · exact Bool.eq_false_iff.mpr hstop
        · exact hused t ht

theorem ends_parsePatternUntil (stop : Token → Bool) (tokens : List Token) :
    Ends overflow (parsePatternUntil display stop) tokens fun _ used rest =>
      (∀ token ∈ used, stop token = false) ∧ (∀ token ∈ rest.head?, stop token = true) := by
  refine .get fun p _ hlen => .bind (ends_patternLoop stop _ [] tokens (Nat.lt_succ_of_le hlen)) ?_
  rintro parts used rest - h
  refine .ite (fun _ => ends_unsupported _) fun _ => ends_pure ?_
  rw [List.append_nil]
  exact h

/-- Any value, and any tokens. -/
def anyhow {α : Type} (_ : α) (_ _ : List Token) : Prop := True

theorem ends_parseOptionalPattern (tokens : List Token) :
    Ends overflow (parseOptionalPattern display) tokens anyhow := by
  refine .bind_nil (reads_isEnd tokens) (.ite (fun _ => ends_pure trivial) fun _ => ?_)
  have hpattern (rest : List Token) :
      Ends overflow (do return some (← parsePatternUntilEnd display)) rest anyhow :=
    .bind (ends_parsePatternUntil _ rest) fun _ _ _ _ _ => ends_pure trivial
  refine .bind (ends_consumeKeyword "LIKE" tokens) fun b _ rest _ _ => ?_
  cases b with
  | false => exact hpattern rest
  | true => exact hpattern rest

theorem ends_expectEnd (tokens : List Token) :
    Ends overflow (expectEnd display) tokens fun _ used rest => used = [] ∧ rest = [] := by
  cases tokens with
  | nil => exact .of_reads reads_expectEnd ⟨rfl, rfl⟩
  | cons token tokens =>
    refine .bind_nil (reads_isEnd _) (.get fun p hp _ => ?_)
    have htoken : p.tokens[p.index]? = some token := by
      rw [← List.head?_drop]
      exact congrArg List.head? hp
    rw [htoken]
    exact .bind_nil (reads_expect token _) (ends_unsupported _)

/-! ### The partition clause -/

variable {overflowChecks : Bool}

theorem ends_addU32 {left right : Nat} (tokens : List Token)
    (h : overflow ∨ left + right < 2 ^ 32) :
    Ends overflow (addU32 overflowChecks left right) tokens fun sum used _ =>
      used = [] ∧ (overflow ∨ sum = left + right) := by
  refine .ite (fun _ => ends_pure ⟨rfl, .inr rfl⟩) fun hge => ?_
  have hover := h.resolve_right hge
  exact .ite (fun _ _ _ => .panicked rfl hover) fun _ => ends_pure ⟨rfl, .inl hover⟩

theorem ends_subU32 {left right : Nat} (tokens : List Token) (h : overflow ∨ right ≤ left) :
    Ends overflow (subU32 overflowChecks left right) tokens fun difference used _ =>
      used = [] ∧ (overflow ∨ difference = left - right) := by
  refine .ite (fun _ => ends_pure ⟨rfl, .inr rfl⟩) fun hlt => ?_
  have hover := h.resolve_right hlt
  exact .ite (fun _ _ _ => .panicked rfl hover) fun _ => ends_pure ⟨rfl, .inl hover⟩

/-- The loop ends where `depth` parentheses are closed, unless the depth overflows. -/
theorem ends_partitionLoop (fuel depth : Nat) (parts : List String) (tokens : List Token)
    (hfuel : tokens.length < fuel)
    (hdepth : overflow ∨ 1 ≤ depth ∧ depth + tokens.count .lParen < 2 ^ 32) :
    Ends overflow (partitionLoop display overflowChecks fuel depth parts) tokens fun _ used _ =>
      overflow ∨ Closes depth used := by
  induction fuel generalizing depth parts tokens with
  | zero => cases hfuel
  | succ fuel ih =>
    cases tokens with
    | nil => exact .bind_reads reads_next_nil (ends_unsupported _)
    | cons token tokens =>
      have hlen : tokens.length < fuel := Nat.lt_of_succ_lt_succ hfuel
      have hcount : tokens.count .lParen ≤ (token :: tokens).count .lParen :=
        List.count_le_count_cons
      refine .bind_reads (reads_next token tokens) ?_
      cases token with
      | lParen =>
        rw [List.count_cons_self] at hdepth
        refine .bind_still (ends_addU32 tokens (hdepth.imp_right fun h => by omega)) ?_
        intro sum hsum
        obtain hover | ⟨hpos, hlt⟩ := hdepth
        · exact (ih sum _ tokens hlen (.inl hover)).mono fun _ _ _ _ _ => .inl hover
        · refine (ih sum _ tokens hlen (hsum.imp_right fun h => by omega)).mono ?_
          rintro _ used _ - hclosed
          obtain hover | rfl := hsum
          · exact .inl hover
          · obtain ⟨outer, rfl⟩ := Nat.exists_eq_add_of_le' hpos
            exact hclosed.imp_right Closes.lParen
      | rParen =>
        refine .bind_still (ends_subU32 tokens (hdepth.imp_right And.left)) ?_
        intro difference hdifference
        refine .ite (fun hzero => ends_pure ?_) fun hne => ?_
        · obtain hover | ⟨hpos, -⟩ := hdepth
          · exact .inl hover
          · refine hdifference.imp_right fun h => ?_
            obtain rfl : depth = 1 := by omega
            exact .rParen rfl
        · obtain hover | ⟨hpos, hlt⟩ := hdepth
          · exact (ih _ _ tokens hlen (.inl hover)).mono fun _ _ _ _ _ => .inl hover
          · refine (ih _ _ tokens hlen (hdifference.imp_right fun h => by omega)).mono ?_
            rintro _ used _ - hclosed
            obtain hover | rfl := hdifference
            · exact .inl hover
            · obtain ⟨outer, rfl⟩ := Nat.exists_eq_add_of_le' hpos
              exact hclosed.imp_right Closes.rParen
      | _ =>
        refine .bind_still (ends_patternToken _ tokens) fun part _ => ?_
        obtain hover | ⟨hpos, hlt⟩ := hdepth
        · exact (ih _ _ tokens hlen (.inl hover)).mono fun _ _ _ _ _ => .inl hover
        · refine (ih depth _ tokens hlen (.inr ⟨hpos, by omega⟩)).mono ?_
          rintro _ used _ - hclosed
          obtain ⟨outer, rfl⟩ := Nat.exists_eq_add_of_le' hpos
          exact hclosed.imp_right (Closes.token nofun nofun)

theorem ends_parseOptionalPartition (tokens : List Token)
    (hover : 2 ^ 32 ≤ tokens.count .lParen → overflow) :
    Ends overflow (parseOptionalPartition display overflowChecks) tokens fun partition used _ =>
      if partition.isSome then ∃ token clause, used = token :: clause ∧
        tokenIsKeyword token "PARTITION" = true ∧ (overflow ∨ Encloses clause)
      else used = [] := by
  refine .bind (ends_consumeKeyword "PARTITION" tokens) fun b used rest hrest h => ?_
  cases b with
  | false =>
    obtain rfl := h
    exact ends_pure rfl
  | true =>
    obtain ⟨token, rfl, hkeyword⟩ := h
    refine .bind (ends_consumeToken .lParen rest) fun b used rest' hrest' hused => ?_
    cases b with
    | false => exact ends_unsupported _
    | true =>
      obtain rfl := hused
      have hdepth : overflow ∨ 1 ≤ 1 ∧ 1 + rest'.count .lParen < 2 ^ 32 := by
        by_cases h : 2 ^ 32 ≤ tokens.count .lParen
        · exact .inl (hover h)
        · rw [hrest, hrest', List.count_append, List.count_append] at h
          simp at h
          exact .inr ⟨Nat.le_refl 1, by omega⟩
      refine .get fun p _ hlen => .bind
        (ends_partitionLoop _ 1 _ rest' (Nat.lt_succ_of_le hlen) hdepth) ?_
      rintro _ used _ - hclosed
      refine ends_pure ⟨token, _, rfl, hkeyword, ?_⟩
      rw [List.append_nil]
      exact hclosed.imp_right Closes.encloses

/-! ### Statements -/

/-- A statement that has no partition clause, read to the end. -/
def Plain (statement : MetadataStatement) (_ rest : List Token) : Prop :=
  rest = [] ∧ ∀ schema pattern partition, statement ≠ .tableExtended schema pattern (some partition)

theorem ends_end {statement : MetadataStatement} (tokens : List Token)
    (h : ∀ schema pattern partition, statement ≠ .tableExtended schema pattern (some partition)) :
    Ends overflow (do
      expectEnd display
      return statement) tokens Plain := by
  refine .bind (ends_expectEnd tokens) ?_
  rintro _ _ _ - ⟨rfl, rfl⟩
  exact ends_pure ⟨rfl, h⟩

theorem ends_pattern_end {statement : Option String → MetadataStatement} (tokens : List Token)
    (h : ∀ x schema pattern partition,
      statement x ≠ .tableExtended schema pattern (some partition)) :
    Ends overflow (do
      let pattern ← parseOptionalPattern display
      expectEnd display
      return statement pattern) tokens Plain :=
  .bind (ends_parseOptionalPattern tokens) fun pattern _ rest _ _ => ends_end rest (h pattern)

theorem ends_inName_pattern_end {statement : Option ObjectName → Option String → MetadataStatement}
    (tokens : List Token) (h : ∀ name x schema pattern partition,
      statement name x ≠ .tableExtended schema pattern (some partition)) :
    Ends overflow (do
      let name ← parseOptionalInName display
      let pattern ← parseOptionalPattern display
      expectEnd display
      return statement name pattern) tokens Plain :=
  .bind (ends_parseOptionalInName tokens) fun name _ rest _ _ => ends_pattern_end rest (h name)

/-- A word that is only looked at. -/
theorem Ends.peek_or {f : Bool → ShowM β} (left right : String)
    (hf : ∀ b, Ends overflow (f b) tokens R) :
    Ends overflow ((peekKeyword left <||> peekKeyword right) >>= f) tokens R := by
  cases hleft : startsWith left tokens with
  | true =>
    refine .bind_nil (reads_or_left ?_) (hf true)
    rw [← hleft]
    exact reads_peekKeyword left tokens
  | false =>
    exact .bind_nil (reads_or_right (reads_peekKeyword_not hleft) (reads_peekKeyword right tokens))
      (hf _)

theorem ends_parseCatalogs (tokens : List Token) :
    Ends overflow (parseCatalogs display) tokens Plain :=
  .peek_or "FROM" "IN" fun _ => .ite (fun _ => ends_unsupported _) fun _ =>
    ends_pattern_end tokens nofun

theorem ends_parseSchemas (tokens : List Token) :
    Ends overflow (parseSchemas display) tokens Plain :=
  .bind_nil (reads_peekKeyword "HISTORY" tokens) <| .ite (fun _ => ends_unsupported _) fun _ =>
    ends_inName_pattern_end tokens nofun

theorem ends_parseTables (tokens : List Token) :
    Ends overflow (parseTables display) tokens Plain :=
  .peek_or "EXTENDED" "HISTORY" fun _ => .ite (fun _ => ends_unsupported _) fun _ =>
    ends_inName_pattern_end tokens nofun

theorem ends_parseColumns (tokens : List Token) :
    Ends overflow (parseColumns display) tokens Plain :=
  .bind (ends_parseRequiredInName _ tokens) fun _ _ rest _ _ =>
    .bind (ends_parseOptionalInName rest) fun _ _ rest _ _ => ends_end rest nofun

/-- All tokens are read, and a partition clause is one pair of parentheses. -/
def Whole (overflow : Prop) (statement : MetadataStatement) (used rest : List Token) : Prop :=
  rest = [] ∧ ∀ schema pattern partition,
    statement = .tableExtended schema pattern (some partition) →
    overflow ∨ PartitionTokens schema used

theorem Plain.whole {statement : MetadataStatement} {used used' : List Token}
    (h : Plain statement used rest) : Whole overflow statement used' rest :=
  ⟨h.1, fun schema pattern partition heq => absurd heq (h.2 schema pattern partition)⟩

theorem ends_parseTableExtended {table : Token} (htable : tokenIsKeyword table "TABLE" = true)
    (tokens : List Token) (hover : 2 ^ 32 ≤ tokens.count .lParen → overflow) :
    Ends overflow (parseTableExtended display overflowChecks) tokens fun statement used =>
      Whole overflow statement (table :: used) := by
  refine .bind (ends_expectKeyword "EXTENDED" tokens) ?_
  rintro _ _ rest₁ rfl ⟨extended, rfl, hextended⟩
  refine .bind (ends_parseOptionalInName rest₁) ?_
  rintro schema schemaTokens rest₂ rfl hschema
  refine .bind (ends_expectKeyword "LIKE" rest₂) ?_
  rintro _ _ rest₃ rfl ⟨like, rfl, hlike⟩
  refine .bind (ends_parsePatternUntil _ rest₃) ?_
  rintro pattern patternTokens rest₄ rfl ⟨hpattern, -⟩
  refine .bind (ends_parseOptionalPartition rest₄ fun h => hover ?_) ?_
  · simp only [List.count_append]
    omega
  · rintro partition used _ rfl hpartition
    refine .bind (ends_expectEnd _) ?_
    rintro _ _ _ - ⟨rfl, rfl⟩
    refine ends_pure ⟨rfl, ?_⟩
    rintro _ _ clauseText heq
    obtain ⟨rfl, rfl, rfl⟩ := MetadataStatement.tableExtended.inj heq
    obtain ⟨word, clause, rfl, hword, hclause⟩ := hpartition
    refine hclause.imp_right fun hclause => ?_
    have := PartitionTokens.mk htable hextended hschema hlike hpattern hword hclause
    simpa using this

theorem Ends.branch {m m' : ShowM α} (keyword : String)
    (h : ∀ token rest, tokens = token :: rest → tokenIsKeyword token keyword = true →
      Ends overflow m rest fun x used => Q x (token :: used))
    (h' : Ends overflow m' tokens Q) :
    Ends overflow (consumeKeyword keyword >>= fun b => if b then m else m') tokens Q := by
  refine .bind (ends_consumeKeyword keyword tokens) fun b used rest hrest hused => ?_
  cases b with
  | false =>
    obtain rfl := hused
    obtain rfl := hrest
    exact h'
  | true =>
    obtain ⟨token, rfl, hkeyword⟩ := hused
    exact h token rest hrest hkeyword

theorem Ends.branch_or {m m' : ShowM α} (left right : String)
    (h : ∀ token rest, Ends overflow m rest fun x used => Q x (token :: used))
    (h' : Ends overflow m' tokens Q) :
    Ends overflow ((consumeKeyword left <||> consumeKeyword right) >>=
      fun b => if b then m else m') tokens Q := by
  refine .bind (ends_or left right tokens) fun b used rest hrest hused => ?_
  cases b with
  | false =>
    obtain rfl := hused
    obtain rfl := hrest
    exact h'
  | true =>
    obtain ⟨token, rfl, -⟩ := hused
    exact h token rest

theorem Ends.plain {m : ShowM MetadataStatement} (token : Token)
    (h : Ends overflow m tokens Plain) :
    Ends overflow m tokens fun statement used => Whole overflow statement (token :: used) :=
  h.mono fun _ _ _ _ h => h.whole

theorem ends_parse (tokens : List Token) (hover : 2 ^ 32 ≤ tokens.count .lParen → overflow) :
    Ends overflow (parse display overflowChecks) tokens fun statement used rest =>
      ∃ first clauses, used = first :: clauses ∧ Whole overflow statement clauses rest := by
  refine .bind (ends_expectKeyword "SHOW" tokens) ?_
  rintro _ _ tokens rfl ⟨first, rfl, -⟩
  refine Ends.mono (P := Whole overflow) ?_ fun _ used _ _ h => ⟨first, used, rfl, h⟩
  refine .branch "CATALOGS" (fun t rest _ _ => .plain t (ends_parseCatalogs rest)) ?_
  refine .branch_or "SCHEMAS" "DATABASES" (fun t rest => .plain t (ends_parseSchemas rest)) ?_
  refine .branch "TABLES" (fun t rest _ _ => .plain t (ends_parseTables rest)) ?_
  refine .branch "VIEWS" (fun t rest _ _ => .plain t (ends_inName_pattern_end rest nofun)) ?_
  refine .branch "COLUMNS" (fun t rest _ _ => .plain t (ends_parseColumns rest)) ?_
  refine .branch "TABLE" ?_ (ends_unsupported _)
  rintro table rest rfl htable
  refine ends_parseTableExtended htable rest fun h => hover ?_
  simp only [List.count_append, List.count_cons]
  omega

end

end ShowParser

end HarborSql
