import HarborSql.Theory.Except
import HarborSql.Verify.Engine.ShowEnds
import Mathlib.Data.List.TakeWhile

/-! The parser of the `SHOW` statements reads each statement back from its tokens, and never leaves
a token unread. -/

namespace HarborSql

/-! ## Semicolons and white space -/

theorem ne_semiColon_of_part {token : Token} {part : String} (h : token.part? = some part) :
    .semiColon ≠ token := by
  rintro rfl
  cases h

theorem not_mem_nameTokens {parts : List String} {tokens : List Token}
    (h : NameTokens parts tokens) : .semiColon ∉ tokens := by
  induction h with
  | one hpart => simp [ne_semiColon_of_part hpart]
  | cons hpart _ ih => simp [ne_semiColon_of_part hpart, ih]

theorem ne_semiColon_of_keyword {token : Token} {keyword : String}
    (h : tokenIsKeyword token keyword = true) : .semiColon ≠ token := by
  intro heq
  rw [← heq] at h
  exact Bool.false_ne_true h

theorem not_mem_inNameTokens {name : ObjectName} {tokens : List Token}
    (h : InNameTokens name tokens) : .semiColon ∉ tokens := by
  obtain ⟨hkeyword, hname⟩ := h
  refine List.not_mem_cons_of_ne_of_not_mem ?_ (not_mem_nameTokens hname)
  exact hkeyword.elim ne_semiColon_of_keyword ne_semiColon_of_keyword

theorem not_mem_optionalInNameTokens {name : Option ObjectName} {tokens : List Token}
    (h : OptionalInNameTokens name tokens) : .semiColon ∉ tokens := by
  cases h with
  | none => exact List.not_mem_nil
  | some h => exact not_mem_inNameTokens h

theorem not_mem_optionalPatternTokens {pattern : Option String} {tokens : List Token}
    (h : OptionalPatternTokens pattern tokens) : .semiColon ∉ tokens := by
  cases h with
  | none => exact List.not_mem_nil
  | bare => simp
  | like _ h => simp [ne_semiColon_of_keyword h]

theorem not_mem_statementTokens {statement : MetadataStatement} {tokens : List Token}
    (h : StatementTokens statement tokens) : .semiColon ∉ tokens := by
  cases h with
  | catalogs h hpattern =>
    simp [ne_semiColon_of_keyword h, not_mem_optionalPatternTokens hpattern]
  | schemas h hcatalog hpattern =>
    simp [h.elim ne_semiColon_of_keyword ne_semiColon_of_keyword,
      not_mem_optionalInNameTokens hcatalog, not_mem_optionalPatternTokens hpattern]
  | tables h hschema hpattern | views h hschema hpattern =>
    simp [ne_semiColon_of_keyword h, not_mem_optionalInNameTokens hschema,
      not_mem_optionalPatternTokens hpattern]
  | columns h htable hschema =>
    simp [ne_semiColon_of_keyword h, not_mem_inNameTokens htable,
      not_mem_optionalInNameTokens hschema]
  | tableExtended _ h hextended hschema hlike =>
    simp [ne_semiColon_of_keyword h, ne_semiColon_of_keyword hextended,
      not_mem_optionalInNameTokens hschema, ne_semiColon_of_keyword hlike]

namespace ShowParser

/-- The parser drops the semicolons at the end. -/
theorem tokens_new (tokens : List Token) :
    ∃ n, tokens = (new tokens).tokens ++ List.replicate n .semiColon := by
  have hall : ∀ token ∈ tokens.reverse.takeWhile (· = .semiColon), token = .semiColon :=
    fun token h => by simpa using List.mem_takeWhile_imp h
  refine ⟨(tokens.reverse.takeWhile (· = .semiColon)).length, ?_⟩
  rw [← List.reverse_replicate, ← List.eq_replicate_of_mem hall, new, ← List.reverse_append,
    List.takeWhile_append_dropWhile, List.reverse_reverse]

theorem new_append {tokens : List Token} (h : .semiColon ∉ tokens) (n : Nat) :
    new (tokens ++ List.replicate n .semiColon) = ⟨tokens, 0⟩ := by
  have hreplicate :
      ∀ token ∈ List.replicate n Token.semiColon, decide (token = .semiColon) = true :=
    fun token ht => decide_eq_true (List.eq_of_mem_replicate ht)
  have hself : tokens.reverse.dropWhile (· = .semiColon) = tokens.reverse := by
    rw [← List.mem_reverse] at h
    cases hr : tokens.reverse with
    | nil => rfl
    | cons token tokens =>
      rw [hr] at h
      exact List.dropWhile_cons_of_neg (by simp [(List.ne_of_not_mem_cons h).symm])
  rw [new, List.reverse_append, List.reverse_replicate,
    List.dropWhile_append_of_pos hreplicate, hself, List.reverse_reverse]

end ShowParser

/-! ## The whole parser -/

def significant (tokens : List Token) : List Token :=
  tokens.filter fun token => !isWhitespaceToken token

/-- A statement as it is written: `SHOW`, its clauses, and semicolons, with white space anywhere. -/
def Writes (statement : MetadataStatement) (tokens : List Token) : Prop :=
  ∃ word clauses n, eqIgnoreAsciiCase word "SHOW" = true ∧ StatementTokens statement clauses ∧
    significant tokens = .word ⟨word, none⟩ :: clauses ++ List.replicate n .semiColon

theorem parseShowTokens_writes (display : Token → String) (overflowChecks : Bool)
    {statement : MetadataStatement} {tokens : List Token} (h : Writes statement tokens) :
    parseShowTokens display overflowChecks tokens = .ok (some statement) := by
  obtain ⟨word, clauses, n, hword, hclauses, htokens⟩ := h
  have hshow : isShow (significant tokens) = true := by
    rw [htokens]
    exact hword
  have hsemi : .semiColon ∉ Token.word ⟨word, none⟩ :: clauses :=
    List.not_mem_cons_of_ne_of_not_mem nofun (not_mem_statementTokens hclauses)
  have hkeyword : tokenIsKeyword (.word ⟨word, none⟩) "SHOW" = true := hword
  have hrun : (ShowParser.parse display overflowChecks).run ⟨.word ⟨word, none⟩ :: clauses, 0⟩ =
      (.ok statement, _) :=
    ShowParser.reads_parse hkeyword hclauses _ (List.append_nil _).symm
  show (if !isShow (significant tokens) then _ else some <$>
    ((ShowParser.parse display overflowChecks).run (.new (significant tokens))).1) = _
  rw [hshow, htokens, ShowParser.new_append hsemi n, hrun]
  rfl

/-- What holds of the parser on any tokens. The depth of the parentheses is a `u32`. -/
structure ParsesWhole (display : Token → String) (overflowChecks : Bool) (tokens : List Token) :
    Prop where
  ends : parseShowTokens display overflowChecks tokens ≠ .error .diverged
  panics : parseShowTokens display overflowChecks tokens = .error .panicked →
    2 ^ 32 ≤ tokens.count .lParen
  /-- The parser has read all tokens but the semicolons at the end. -/
  consumes : ∀ statement, parseShowTokens display overflowChecks tokens = .ok (some statement) →
    ∃ read n, significant tokens = read ++ List.replicate n .semiColon ∧
      (ShowParser.parse display overflowChecks).run (.new (significant tokens)) =
        (.ok statement, ⟨read, read.length⟩)
  closes : ∀ schema pattern partition,
    parseShowTokens display overflowChecks tokens =
      .ok (some (.tableExtended schema pattern (some partition))) →
    2 ^ 32 ≤ tokens.count .lParen ∨ ∃ first clauses n,
      significant tokens = first :: clauses ++ List.replicate n .semiColon ∧
        PartitionTokens schema clauses

theorem significant_count_le (tokens : List Token) :
    (significant tokens).count .lParen ≤ tokens.count .lParen :=
  List.filter_sublist.count_le _

/-- A `SHOW` statement is what the parser returns. -/
theorem run_parse_of_ok {display : Token → String} {overflowChecks : Bool} {tokens : List Token}
    {statement : MetadataStatement}
    (h : parseShowTokens display overflowChecks tokens = .ok (some statement)) :
    ∃ p, (ShowParser.parse display overflowChecks).run (.new (significant tokens)) =
      (.ok statement, p) := by
  rw [parseShowTokens] at h
  split at h
  · cases h
  · obtain ⟨_, hrun, hstatement⟩ := Except.map_eq_ok.mp h
    obtain rfl := Option.some.inj hstatement
    exact ⟨_, Prod.ext hrun rfl⟩

theorem run_parse_of_error {display : Token → String} {overflowChecks : Bool} {tokens : List Token}
    {fault : Fault} (h : parseShowTokens display overflowChecks tokens = .error fault) :
    ∃ p, (ShowParser.parse display overflowChecks).run (.new (significant tokens)) =
      (.error fault, p) := by
  rw [parseShowTokens] at h
  split at h
  · cases h
  · exact ⟨_, Prod.ext (Except.map_eq_error.mp h) rfl⟩

theorem parsesWhole (display : Token → String) (overflowChecks : Bool) (tokens : List Token) :
    ParsesWhole display overflowChecks tokens := by
  obtain ⟨n, hn⟩ := ShowParser.tokens_new (significant tokens)
  have hover : 2 ^ 32 ≤ (ShowParser.new (significant tokens)).tokens.count .lParen →
      2 ^ 32 ≤ tokens.count .lParen := by
    have := significant_count_le tokens
    rw [hn, List.count_append] at this
    omega
  have outcome : ShowParser.Outcome (2 ^ 32 ≤ tokens.count .lParen)
      (ShowParser.parse display overflowChecks) (.new (significant tokens)) _ :=
    ShowParser.ends_parse _ hover _ rfl
  have hok {statement : MetadataStatement}
      (h : parseShowTokens display overflowChecks tokens = .ok (some statement)) :
      ∃ first clauses, significant tokens = first :: clauses ++ List.replicate n .semiColon ∧
        (ShowParser.parse display overflowChecks).run (.new (significant tokens)) =
          (.ok statement, ⟨first :: clauses, (first :: clauses).length⟩) ∧
        ShowParser.Whole (2 ^ 32 ≤ tokens.count .lParen) statement clauses [] := by
    obtain ⟨p, hrun⟩ := run_parse_of_ok h
    obtain ⟨_, _, rfl, hread, first, clauses, rfl, rfl, hwhole⟩ := outcome.of_ok hrun
    rw [List.append_nil] at hread
    change (ShowParser.new (significant tokens)).tokens = first :: clauses at hread
    refine ⟨first, clauses, hread ▸ hn, hrun.trans ?_, rfl, hwhole⟩
    rw [ShowParser.skip, hread]
    simp [ShowParser.new]
  exact {
    ends := by
      intro h
      obtain ⟨p, hrun⟩ := run_parse_of_error h
      obtain ⟨e, he⟩ | ⟨he, -⟩ := outcome.of_error hrun
      · cases he
      · cases he
    panics := by
      intro h
      obtain ⟨p, hrun⟩ := run_parse_of_error h
      obtain ⟨e, he⟩ | ⟨-, hover⟩ := outcome.of_error hrun
      · cases he
      · exact hover
    consumes := by
      intro statement h
      obtain ⟨first, clauses, htokens, hrun, -⟩ := hok h
      exact ⟨first :: clauses, n, htokens, hrun⟩
    closes := by
      intro schema pattern partition h
      obtain ⟨first, clauses, htokens, -, -, hpartition⟩ := hok h
      exact (hpartition _ _ _ rfl).imp_right fun h => ⟨first, clauses, n, htokens, h⟩ }

def word (value : String) : Token := .word ⟨value, none⟩

theorem Balanced.count_eq {tokens : List Token} (h : Balanced tokens) :
    tokens.count .lParen = tokens.count .rParen := by
  induction h with
  | nil => rfl
  | token hl hr _ ih => rwa [List.count_cons_of_ne hl, List.count_cons_of_ne hr]
  | parens _ _ ih ih' =>
    simp only [List.count_cons, List.count_append, ih, ih']
    simp
    omega

def nestedClause (n : Nat) : List Token := .lParen :: (List.replicate n .lParen ++ [.rParen])

/-- A statement whose partition clause leaves `n` parentheses open. -/
def nestedPartition (n : Nat) : List Token :=
  word "SHOW" :: word "TABLE" :: word "EXTENDED" :: word "LIKE" :: .singleQuotedString "x" ::
    word "PARTITION" :: nestedClause n

theorem not_encloses_nestedClause {n : Nat} (hn : 0 < n) : ¬ Encloses (nestedClause n) := by
  rintro ⟨inner, hinner, heq⟩
  have hcount := hinner.count_eq
  have heq := List.append_cancel_right (List.cons.inj heq).2
  rw [← heq, List.count_replicate_self, List.count_replicate] at hcount
  simp at hcount
  omega

theorem significant_nestedPartition (n : Nat) :
    significant (nestedPartition n) = nestedPartition n := by
  simp [significant, nestedPartition, nestedClause, word, isWhitespaceToken, List.filter_append]

namespace ShowParser

variable {α β : Type}

/-- `m` panics on the tokens. -/
def Panics (m : ShowM α) (tokens : List Token) : Prop :=
  ∀ p : ShowParser, p.rest = tokens → ∃ p', m.run p = (.error .panicked, p')

section
variable {m : ShowM α} {f : α → ShowM β} {x : α} {used rest tokens : List Token}
  {display : Token → String}

theorem Panics.bind (h : Panics m tokens) : Panics (m >>= f) tokens := by
  intro p hp
  obtain ⟨p', hrun⟩ := h p hp
  exact ⟨p', run_bind_error hrun⟩

theorem Panics.bind_reads (hm : Reads m used x rest) (hf : Panics (f x) rest) :
    Panics (m >>= f) (used ++ rest) := by
  intro p hp
  obtain ⟨p', hrun⟩ := hf _ (rest_skip_of_append hp)
  exact ⟨p', (run_bind_ok (hm p hp)).trans hrun⟩

/-- A call that reads nothing. -/
theorem Panics.bind_nil (hm : Reads m [] x tokens) (hf : Panics (f x) tokens) :
    Panics (m >>= f) tokens := .bind_reads hm hf

theorem Panics.get {f : ShowParser → ShowM α}
    (h : ∀ p, tokens.length ≤ p.tokens.length → Panics (f p) tokens) :
    Panics (MonadState.get >>= f) tokens := by
  intro p hp
  have hlen := p.length_rest_le
  rw [hp] at hlen
  exact h p hlen p hp

theorem Panics.expect {f : Unit → ShowM β} {token : Token} {keyword : String}
    (h : tokenIsKeyword token keyword = true) (hf : Panics (f ()) tokens) :
    Panics (expectKeyword keyword >>= f) (token :: tokens) :=
  .bind_reads (reads_expectKeyword h tokens) hf

theorem Panics.ite_not {c : Prop} [Decidable c] {m m' : ShowM α} (hc : ¬ c) (h : Panics m' tokens) :
    Panics (if c then m else m') tokens := by
  rwa [if_neg hc]

theorem Panics.this {m m' : ShowM α} {token : Token} {keyword : String}
    (h : tokenIsKeyword token keyword = true) (hm : Panics m tokens) :
    Panics (consumeKeyword keyword >>= fun b => if b then m else m') (token :: tokens) :=
  .bind_reads (reads_consumeKeyword h tokens) hm

theorem Panics.other {m m' : ShowM α} {keyword : String} (h : startsWith keyword tokens = false)
    (hm : Panics m' tokens) :
    Panics (consumeKeyword keyword >>= fun b => if b then m else m') tokens :=
  .bind_nil (reads_consumeKeyword_not h) (.ite_not Bool.false_ne_true hm)

theorem panics_partitionLoop (n depth fuel : Nat) (parts : List String) (rest : List Token)
    (hfuel : n ≤ fuel) (hdepth : depth < 2 ^ 32) (hn : 2 ^ 32 ≤ depth + n) :
    Panics (partitionLoop display true fuel depth parts) (List.replicate n .lParen ++ rest) := by
  induction n generalizing depth fuel parts with
  | zero => omega
  | succ n ih =>
    obtain ⟨fuel, rfl⟩ := Nat.exists_eq_add_of_le' (Nat.le_trans (Nat.le_add_left 1 n) hfuel)
    rw [List.replicate_succ, List.cons_append]
    refine .bind_reads (reads_next .lParen _) ?_
    by_cases hlt : depth + 1 < 2 ^ 32
    · refine .bind_nil (x := depth + 1) ?_ ?_
      · exact .ite hlt (reads_pure _ _)
      · exact ih _ _ _ (Nat.le_of_succ_le_succ hfuel) hlt (by omega)
    · refine .bind fun p _ => ⟨p, ?_⟩
      rw [addU32, if_neg hlt]
      rfl

theorem reads_partitionLoop (n depth fuel : Nat) (parts : List String) (hfuel : n < fuel)
    (hdepth : depth < 2 ^ 32) (hn : (depth + n) % 2 ^ 32 = 1) :
    Reads (partitionLoop display false fuel depth parts) (List.replicate n .lParen ++ [.rParen])
      (String.join (parts ++ List.replicate n "(" ++ [")"])) [] := by
  induction n generalizing depth fuel parts with
  | zero =>
    obtain ⟨fuel, rfl⟩ := Nat.exists_eq_add_of_le' hfuel
    obtain rfl : depth = 1 := by omega
    rw [List.replicate_zero, List.replicate_zero, List.append_nil]
    refine .bind_last (reads_next .rParen []) ?_
    exact .bind_nil (reads_pure 0 []) (.ite rfl (reads_pure _ []))
  | succ n ih =>
    obtain ⟨fuel, rfl⟩ := Nat.exists_eq_add_of_le' (Nat.lt_of_le_of_lt (Nat.zero_le _) hfuel)
    have h := ih ((depth + 1) % 2 ^ 32) fuel (parts ++ ["("]) (Nat.lt_of_succ_lt_succ hfuel)
      (Nat.mod_lt _ (by simp)) (by omega)
    rw [List.append_assoc parts] at h
    rw [List.replicate_succ, List.cons_append]
    refine .bind (reads_next .lParen _) (.bind_nil ?_ h)
    by_cases hlt : depth + 1 < 2 ^ 32
    · rw [Nat.mod_eq_of_lt hlt]
      exact .ite hlt (reads_pure _ _)
    · exact .ite_not hlt (.ite_not Bool.false_ne_true (reads_pure _ _))

theorem panics_parseOptionalPartition (n : Nat) (hn : n = 2 ^ 32) :
    Panics (parseOptionalPartition display true) (word "PARTITION" :: nestedClause n) := by
  refine .bind_reads (reads_consumeKeyword rfl _) (.ite_not Bool.false_ne_true ?_)
  refine .bind_reads (reads_consumeToken .lParen _) (.ite_not Bool.false_ne_true ?_)
  refine .get fun p hlen => .bind ?_
  change (List.replicate n Token.lParen ++ [Token.rParen]).length ≤ p.tokens.length at hlen
  rw [List.length_append, List.length_replicate] at hlen
  exact panics_partitionLoop n 1 _ _ [.rParen] (by omega) (by omega) (by omega)

/-- With checks the depth of the parentheses overflows. -/
theorem panics_parse (n : Nat) (hn : n = 2 ^ 32) :
    Panics (parse display true) (nestedPartition n) := by
  refine .expect rfl (.other rfl (.bind_nil (reads_or_right (reads_consumeKeyword_not rfl)
    (reads_consumeKeyword_not rfl)) (.ite_not Bool.false_ne_true ?_)))
  refine .other rfl (.other rfl (.other rfl (.this rfl (.expect rfl ?_))))
  refine .bind_nil (reads_parseOptionalInName .none ⟨nofun, rfl, rfl⟩) (.expect rfl ?_)
  refine .bind_reads (reads_parsePatternUntil rfl fun token h => ?_)
    (panics_parseOptionalPartition n hn).bind
  obtain rfl := Option.some.inj h
  rfl

/-- The text of a clause that leaves `n` parentheses open. -/
def nestedText (n : Nat) : String := String.join (["("] ++ List.replicate n "(" ++ [")"])

theorem reads_parseOptionalPartition (n : Nat) (hn : n = 2 ^ 32) :
    Reads (parseOptionalPartition display false) (word "PARTITION" :: nestedClause n)
      (some (nestedText n)) [] := by
  refine .bind (reads_consumeKeyword rfl _) (.ite_not Bool.false_ne_true ?_)
  refine .bind (reads_consumeToken .lParen _) (.ite_not Bool.false_ne_true ?_)
  refine .get fun p hlen => .bind_pure ?_
  rw [List.append_nil] at hlen
  change (List.replicate n Token.lParen ++ [Token.rParen]).length ≤ p.tokens.length at hlen
  rw [List.length_append, List.length_replicate] at hlen
  exact reads_partitionLoop n 1 _ _ (by omega) (by omega) (by omega)

/-- Without them it is 1 again after `2 ^ 32` of them. -/
theorem reads_parse_nested (n : Nat) (hn : n = 2 ^ 32) :
    Reads (parse display false) (nestedPartition n) (.tableExtended none "x" (some (nestedText n)))
      [] := by
  have htable : tokenIsKeyword (word "TABLE") "TABLE" = true := rfl
  refine .bind (reads_expectKeyword rfl _) ?_
  refine .other htable rfl (.other_schemas htable rfl rfl (.other htable rfl ?_))
  refine .other htable rfl (.other htable rfl (.this htable ?_))
  refine reads_parseTableExtended rfl .none rfl "x" ?_ (reads_parseOptionalPartition n hn)
  intro token h
  obtain rfl := Option.some.inj h
  rfl

end

end ShowParser

theorem new_nestedPartition (n : Nat) :
    ShowParser.new (significant (nestedPartition n)) = ⟨nestedPartition n, 0⟩ := by
  have h : .semiColon ∉ nestedPartition n := by
    simp [nestedPartition, nestedClause, word]
  have hnew := ShowParser.new_append h 0
  rw [List.replicate_zero, List.append_nil] at hnew
  rw [significant_nestedPartition, hnew]

theorem parse_nestedPartition (n : Nat) (hn : n = 2 ^ 32) :
    parseShowTokens (fun _ => "") true (nestedPartition n) = .error .panicked ∧
    parseShowTokens (fun _ => "") false (nestedPartition n) =
      .ok (some (.tableExtended none "x" (some (ShowParser.nestedText n)))) := by
  have hparse (overflowChecks : Bool) :
      parseShowTokens (fun _ => "") overflowChecks (nestedPartition n) =
        some <$> ((ShowParser.parse (fun _ => "") overflowChecks).run
          ⟨nestedPartition n, 0⟩).1 := by
    show (if !isShow (significant (nestedPartition n)) then Except.ok none else
      some <$> ((ShowParser.parse (fun _ => "") overflowChecks).run
        (.new (significant (nestedPartition n)))).1) = _
    rw [new_nestedPartition, significant_nestedPartition]
    rfl
  constructor
  · obtain ⟨p, hrun⟩ := ShowParser.panics_parse n hn ⟨nestedPartition n, 0⟩ rfl
    rw [hparse, hrun]
    rfl
  · rw [hparse, ShowParser.reads_parse_nested n hn ⟨nestedPartition n, 0⟩ (List.append_nil _).symm]
    rfl

end HarborSql
