/-
  Converge.Proofs.Gate — what a gate asks of its discovery, and what it makes of the answers.

  The answers of a discovery may change from call to call.  A gate whose remembered answers never
  get too old goes by the first answer for each kind, be it good or bad; one whose answers are too
  old at once asks every time, and so is as good as a gate without a cache.

  Main statements:
    * `Gate.consult_asking` — without a cache every query goes by the answers of its own moment.
    * `Gate.consultAll_zero` — with a time to live of zero a cache makes no difference.
    * `Gate.Recalls.consult` — a cache that lasts goes by the first answers.
    * `Gate.consultAll_caching` — both, for any discovery and queries in any mixture.
-/
import Converge.Proofs.Children.Served
import Converge.Proofs.Table.Ascending

namespace Converge.Gate

/-! ## §1. Consultations -/

/-- What a gate may be asked. -/
inductive Query where
  /-- Whether a kind is supported. -/
  | supports (k : Kind)
  /-- Which kinds are missing. -/
  | resolve
deriving DecidableEq, Repr

namespace Query

/-- What a gate says to a query. -/
abbrev Reply : Query → Type
  | supports _ => Bool
  | resolve => Capabilities

/-- The kinds a query is about that a cluster may lack. -/
def kinds : Query → List Kind
  | supports k => [k].filter Kind.isOptional
  | resolve => Kind.optionals

end Query

/-- A query, what the gate said, and what discovery was asked meanwhile, with its answers. -/
structure Consultation where
  query : Query
  reply : query.Reply
  asked : Table Kind Bool

namespace Consultation

/-- The reply tells whether a kind is supported. -/
def Says : Consultation → Kind → Bool → Prop
  | ⟨.supports k, served, _⟩, kind, b => kind = k ∧ b = served
  | ⟨.resolve, caps, _⟩, kind, b => b = caps.supports kind

/-- The reply goes by what was heard.  A kind that no cluster may lack is supported; of any other
    one it says what was heard first, and missing are those of which that was a refusal. -/
structure GoesBy (c : Consultation) (heard : Table Kind Bool) : Prop where
  core : ∀ k b, c.Says k b → k.isOptional = false → b = true
  optional : ∀ k b, c.Says k b → k.isOptional = true → Table.get? heard k = some b
  missing : ∀ caps asked, c = ⟨.resolve, caps, asked⟩ →
    ∀ k, k ∈ caps.missing ↔ k.isOptional = true ∧ Table.get? heard k = some false

/-- A reply to a single question. -/
theorem goesBy_supports {k : Kind} {served : Bool} {asked heard : Table Kind Bool}
    (fits : if k.isOptional then Table.get? heard k = some served else served = true) :
    GoesBy ⟨.supports k, served, asked⟩ heard where
  core := by
    rintro _ _ ⟨rfl, rfl⟩ plain
    rwa [if_neg (by simp [plain])] at fits
  optional := by
    rintro _ _ ⟨rfl, rfl⟩ optional
    rwa [if_pos optional] at fits
  missing := by
    intro caps asked h
    cases h

/-- A reply that lists what is missing. -/
theorem goesBy_resolve {caps : Capabilities} {asked heard : Table Kind Bool}
    (only : ∀ k ∈ caps.missing, k.isOptional = true)
    (fits : ∀ k, k.isOptional = true → Table.get? heard k = some (caps.supports k)) :
    GoesBy ⟨.resolve, caps, asked⟩ heard where
  core := by
    rintro k _ rfl plain
    exact Capabilities.supports_plain only plain
  optional := by
    rintro k _ rfl optional
    exact fits k optional
  missing := by
    intro caps' asked' h k
    cases h
    have hmissing : caps.supports k = false ↔ k ∈ caps.missing := by
      simp [Capabilities.supports]
    constructor
    · intro hk
      exact ⟨only k hk, by rw [fits k (only k hk), hmissing.mpr hk]⟩
    · rintro ⟨optional, hheard⟩
      rw [fits k optional] at hheard
      exact hmissing.mp (Option.some.inj hheard)

/-- What is heard later does not matter. -/
theorem GoesBy.later {c : Consultation} {heard : Table Kind Bool} (h : c.GoesBy heard)
    (more : Table Kind Bool) : c.GoesBy (heard ++ more) := by
  have hlater : ∀ k b, Table.get? heard k = some b → Table.get? (heard ++ more) k = some b := by
    intro k b hk
    rw [Table.get?_append, hk, Option.some_or]
  obtain ⟨query, reply, asked⟩ := c
  cases query with
  | supports k =>
    refine goesBy_supports ?_
    split
    · rename_i optional
      exact hlater k reply (h.optional k reply ⟨rfl, rfl⟩ optional)
    · rename_i plain
      exact h.core k reply ⟨rfl, rfl⟩ (by simpa using plain)
  | resolve =>
    refine goesBy_resolve (fun k hk => ((h.missing reply asked rfl k).mp hk).1) ?_
    exact fun k optional => hlater k _ (h.optional k _ rfl optional)

end Consultation

variable {σ : Type}

/-- A discovery that keeps what it was asked and what it answered; the latest question comes
    last. -/
def noted (ask : Kind → σ → Bool × σ) (k : Kind) (s : σ × Table Kind Bool) :
    Bool × (σ × Table Kind Bool) :=
  ((ask k s.1).1, ((ask k s.1).2, s.2 ++ [(k, (ask k s.1).1)]))

/-- A query at a time, what came of it, and what the gate remembers and its discovery is like
    then. -/
def consult (g : Gate) (ask : Kind → σ → Bool × σ) (now : Nat) (q : Query) (s : Answers × σ) :
    Consultation × (Answers × σ) :=
  match q with
  | .supports k =>
    let said := g.supported (noted ask) now k (s.1, (s.2, []))
    (⟨.supports k, said.1, said.2.2.2⟩, (said.2.1, said.2.2.1))
  | .resolve =>
    let said := g.resolve (noted ask) now (s.1, (s.2, []))
    (⟨.resolve, said.1, said.2.2.2⟩, (said.2.1, said.2.2.1))

/-- Queries in turn, each with the time at which it is made. -/
def consultAll (g : Gate) (ask : Kind → σ → Bool × σ) :
    List (Nat × Query) → Answers × σ → List Consultation
  | [], _ => []
  | (now, q) :: rest, s =>
    (g.consult ask now q s).1 :: consultAll g ask rest (g.consult ask now q s).2

theorem query_consult (g : Gate) (ask : Kind → σ → Bool × σ) (now : Nat) (q : Query)
    (s : Answers × σ) : (g.consult ask now q s).1.query = q := by
  cases q <;> rfl

theorem queries_consultAll (g : Gate) (ask : Kind → σ → Bool × σ) (qs : List (Nat × Query))
    (s : Answers × σ) : (g.consultAll ask qs s).map Consultation.query = qs.map Prod.snd := by
  induction qs generalizing s with
  | nil => rfl
  | cons q qs ih =>
    show (g.consult ask q.1 q.2 s).1.query :: _ = _
    rw [query_consult, ih]
    rfl

/-- For each kind of a list it was heard whether it is missing. -/
def Hears (ks missing : List Kind) (heard : Table Kind Bool) : Prop :=
  ∀ k ∈ ks, Table.get? heard k = some (decide (k ∉ missing))

/-- One more kind, of which the answer is at hand. -/
theorem Hears.cons {k : Kind} {ks missing : List Kind} {heard : Table Kind Bool} {served : Bool}
    (h : Hears ks missing heard) (new : k ∉ ks) (only : missing ⊆ ks)
    (said : Table.get? heard k = some served) :
    Hears (k :: ks) (if served then missing else k :: missing) heard := by
  intro l hl
  rcases List.mem_cons.mp hl with rfl | hl
  · have hout : l ∉ missing := fun hmem => new (only hmem)
    rw [said]
    cases served <;> simp [hout]
  · have hne : l ≠ k := fun heq => new (heq ▸ hl)
    rw [h l hl]
    cases served <;> simp [hne]

/-- What a gate resolves from what it heard of every optional kind. -/
theorem Hears.goesBy {missing : List Kind} {asked heard : Table Kind Bool}
    (h : Hears Kind.optionals missing heard) (only : missing ⊆ Kind.optionals) :
    Consultation.GoesBy ⟨.resolve, Capabilities.without missing, asked⟩ heard := by
  refine Consultation.goesBy_resolve ?_ ?_
  · intro k hk
    exact List.contains_iff_mem.mpr (only ((Roster.mem_ofList _ k).mp hk))
  · intro k optional
    rw [h k (List.contains_iff_mem.mp optional)]
    simp [Capabilities.supports, Capabilities.without]

/-! ## §2. A gate that always asks -/

section Asking

variable (ask : Kind → σ → Bool × σ) (now : Nat)

theorem supported_asking (k : Kind) (answers : Answers) (inner : σ) (log : Table Kind Bool) :
    Gate.asking.supported (noted ask) now k (answers, (inner, log))
      = if k.isOptional then
          ((ask k inner).1, (answers, ((ask k inner).2, log ++ [(k, (ask k inner).1)])))
        else (true, (answers, (inner, log))) := by
  unfold supported known?
  cases k.isOptional <;> rfl

/-- Kinds that a cluster may lack are asked for in turn, each of them once. -/
theorem missingOf_asking {ks : List Kind} (once : ks.Nodup)
    (optional : ∀ k ∈ ks, k.isOptional = true) (answers : Answers) (inner : σ)
    (log : Table Kind Bool) :
    let said := Gate.asking.missingOf (noted ask) now ks (answers, (inner, log))
    ∃ heard, said.2.2.2 = log ++ heard ∧ Table.keys heard = ks ∧ Hears ks said.1 heard := by
  induction ks generalizing inner log with
  | nil => exact ⟨[], (List.append_nil log).symm, rfl, fun k hk => absurd hk List.not_mem_nil⟩
  | cons k ks ih =>
    obtain ⟨hnew, hrest⟩ := List.nodup_cons.mp once
    let served := (ask k inner).1
    have hfirst := supported_asking ask now k answers inner log
    rw [if_pos (optional k List.mem_cons_self)] at hfirst
    obtain ⟨heard, hlog, hkeys, hears⟩ := ih hrest
      (fun l hl => optional l (List.mem_cons_of_mem _ hl)) (ask k inner).2 (log ++ [(k, served)])
    have honly := Gate.asking.missingOf_subset (noted ask) now ks
      (answers, ((ask k inner).2, log ++ [(k, served)]))
    refine ⟨(k, served) :: heard, ?_, ?_, ?_⟩
    · unfold missingOf
      rw [hfirst]
      exact hlog.trans (List.append_assoc log [(k, served)] heard)
    · exact congrArg (k :: ·) hkeys
    · unfold missingOf
      rw [hfirst]
      refine Hears.cons ?_ hnew honly (by rw [Table.get?_cons, if_pos rfl])
      intro l hl
      have hne : k ≠ l := fun heq => hnew (heq ▸ hl)
      rw [Table.get?_cons, if_neg hne]
      exact hears l hl

/-- Every query asks discovery for the optional kinds it is about, and goes by these answers. -/
theorem consult_asking (q : Query) (s : Answers × σ) :
    let c := (Gate.asking.consult ask now q s).1
    Table.keys c.asked = q.kinds ∧ c.GoesBy c.asked := by
  obtain ⟨answers, inner⟩ := s
  cases q with
  | supports k =>
    have hsaid := supported_asking ask now k answers inner []
    unfold consult
    dsimp only
    rw [hsaid]
    cases hk : k.isOptional with
    | false =>
      exact ⟨by simp [Table.keys, Query.kinds, hk], Consultation.goesBy_supports (by simp [hk])⟩
    | true =>
      exact ⟨by simp [Table.keys, Query.kinds, hk],
        Consultation.goesBy_supports (by simp [hk, Table.get?_cons])⟩
  | resolve =>
    have hoptional : ∀ k ∈ Kind.optionals, k.isOptional = true := by decide
    obtain ⟨heard, hlog, hkeys, hears⟩ :=
      missingOf_asking ask now (by decide) hoptional answers inner []
    have honly := Gate.asking.missingOf_subset (noted ask) now Kind.optionals (answers, (inner, []))
    unfold consult resolve
    dsimp only
    rw [hlog, List.nil_append]
    exact ⟨hkeys, hears.goesBy honly⟩

end Asking

theorem consultAll_asking (ask : Kind → σ → Bool × σ) (qs : List (Nat × Query))
    (s : Answers × σ) : ∀ c ∈ Gate.asking.consultAll ask qs s,
      Table.keys c.asked = c.query.kinds ∧ c.GoesBy c.asked := by
  induction qs generalizing s with
  | nil => exact fun c hc => absurd hc List.not_mem_nil
  | cons q qs ih =>
    intro c hc
    rcases List.mem_cons.mp hc with rfl | hc
    · rw [query_consult]
      exact consult_asking ask q.1 q.2 s
    · exact ih _ c hc

/-! ## §3. A time to live of zero -/

section Zero

variable (ask : Kind → σ → Bool × σ) (now : Nat)

/-- No remembered answer is young enough. -/
theorem known?_zero (answers answers' : Answers) (k : Kind) :
    (Gate.caching 0).known? answers now k = Gate.asking.known? answers' now k := by
  unfold known?
  cases Table.get? answers k <;> simp

/-- So a kind is asked for as if there was no cache; what is remembered of it has no effect. -/
theorem supported_zero (k : Kind) (answers answers' : Answers) (inner : σ) :
    ((Gate.caching 0).supported ask now k (answers, inner)).1
        = (Gate.asking.supported ask now k (answers', inner)).1 ∧
      ((Gate.caching 0).supported ask now k (answers, inner)).2.2
        = (Gate.asking.supported ask now k (answers', inner)).2.2 := by
  unfold supported
  dsimp only
  rw [known?_zero now answers answers' k]
  cases Gate.asking.known? answers' now k <;> exact ⟨rfl, rfl⟩

theorem missingOf_zero (ks : List Kind) (answers answers' : Answers) (inner : σ) :
    ((Gate.caching 0).missingOf ask now ks (answers, inner)).1
        = (Gate.asking.missingOf ask now ks (answers', inner)).1 ∧
      ((Gate.caching 0).missingOf ask now ks (answers, inner)).2.2
        = (Gate.asking.missingOf ask now ks (answers', inner)).2.2 := by
  induction ks generalizing answers answers' inner with
  | nil => exact ⟨rfl, rfl⟩
  | cons k ks ih =>
    obtain ⟨hserved, hinner⟩ := supported_zero ask now k answers answers' inner
    unfold missingOf
    dsimp only
    generalize (Gate.caching 0).supported ask now k (answers, inner) = said at hserved hinner ⊢
    generalize Gate.asking.supported ask now k (answers', inner) = said' at hserved hinner ⊢
    obtain ⟨served, answers, inner⟩ := said
    obtain ⟨served', answers', inner'⟩ := said'
    obtain rfl : served = served' := hserved
    obtain rfl : inner = inner' := hinner
    obtain ⟨hmissing, hrest⟩ := ih answers answers' inner
    exact ⟨by rw [hmissing], hrest⟩

theorem consult_zero (q : Query) (answers answers' : Answers) (inner : σ) :
    ((Gate.caching 0).consult ask now q (answers, inner)).1
        = (Gate.asking.consult ask now q (answers', inner)).1 ∧
      ((Gate.caching 0).consult ask now q (answers, inner)).2.2
        = (Gate.asking.consult ask now q (answers', inner)).2.2 := by
  cases q with
  | supports k =>
    obtain ⟨hserved, hinner⟩ := supported_zero (noted ask) now k answers answers' (inner, [])
    unfold consult
    dsimp only
    rw [hserved, hinner]
    exact ⟨rfl, rfl⟩
  | resolve =>
    obtain ⟨hmissing, hinner⟩ :=
      missingOf_zero (noted ask) now Kind.optionals answers answers' (inner, [])
    unfold consult resolve
    dsimp only
    rw [hmissing, hinner]
    exact ⟨rfl, rfl⟩

end Zero

/-- With a time to live of zero a gate is as good as one that always asks. -/
theorem consultAll_zero (ask : Kind → σ → Bool × σ) (qs : List (Nat × Query))
    (answers answers' : Answers) (inner : σ) :
    (Gate.caching 0).consultAll ask qs (answers, inner)
      = Gate.asking.consultAll ask qs (answers', inner) := by
  induction qs generalizing answers answers' inner with
  | nil => rfl
  | cons q qs ih =>
    obtain ⟨now, q⟩ := q
    obtain ⟨hfirst, hinner⟩ := consult_zero ask now q answers answers' inner
    unfold consultAll
    rw [hfirst]
    refine congrArg _ ?_
    generalize (Gate.caching 0).consult ask now q (answers, inner) = c at hinner ⊢
    generalize Gate.asking.consult ask now q (answers', inner) = c' at hinner ⊢
    obtain ⟨_, answers, inner⟩ := c
    obtain ⟨_, answers', inner'⟩ := c'
    obtain rfl : inner = inner' := hinner
    exact ih answers answers' inner

/-! ## §4. A cache that lasts -/

/-- The gate remembers just what was heard: of each kind, which a cluster may lack, it was heard
    once, and the answer does not get too old at any of the times to come. -/
structure Recalls (ttl : Nat) (times : List Nat) (answers : Answers) (heard : Table Kind Bool) :
    Prop where
  once : (Table.keys heard).Nodup
  optional : ∀ k ∈ Table.keys heard, k.isOptional = true
  known : ∀ k, Table.get? heard k = (Table.get? answers k).map Prod.fst
  young : ∀ k served given, Table.get? answers k = some (served, given) →
    ∀ now ∈ times, now - given < ttl

namespace Recalls

variable {ttl : Nat} {times : List Nat} {answers : Answers} {heard : Table Kind Bool}

/-- The first answer for a kind. -/
theorem remember (h : Recalls ttl times answers heard) {now : Nat}
    (lasts : ∀ later ∈ times, later - now < ttl) {k : Kind} (optional : k.isOptional = true)
    (fresh : Table.get? answers k = none) (served : Bool) :
    Recalls ttl times (Table.insert answers k (served, now)) (heard ++ [(k, served)]) := by
  have hunheard : Table.get? heard k = none := by rw [h.known, fresh, Option.map_none]
  have hkeys : Table.keys (heard ++ [(k, served)]) = Table.keys heard ++ [k] := List.map_append
  refine ⟨?once, ?optional, ?known, ?young⟩
  case once =>
    rw [hkeys, List.nodup_append]
    refine ⟨h.once, by simp, ?_⟩
    rintro a ha b hb rfl
    obtain rfl := List.mem_singleton.mp hb
    have hsome := Table.isSome_get?_iff.mpr ha
    rw [hunheard] at hsome
    exact Bool.noConfusion hsome
  case optional =>
    intro l hl
    rw [hkeys, List.mem_append, List.mem_singleton] at hl
    rcases hl with hl | rfl
    · exact h.optional l hl
    · exact optional
  case known =>
    intro l
    rw [Table.get?_append, Table.get?_insert]
    by_cases hl : k = l
    · subst hl
      rw [hunheard, if_pos rfl, Table.get?_cons, if_pos rfl]
      rfl
    · rw [if_neg hl, Table.get?_cons, if_neg hl, Table.get?_nil, Option.or_none, h.known]
  case young =>
    intro l b given hl
    rw [Table.get?_insert] at hl
    split at hl
    · cases hl
      exact lasts
    · exact h.young l b given hl

variable (ask : Kind → σ → Bool × σ) (inner : σ) {now : Nat} {before log : Table Kind Bool}

/-- A kind is asked for at most for the first time, and then the answer is the first one. -/
theorem supported (h : Recalls ttl times answers (before ++ log)) (mem : now ∈ times)
    (lasts : ∀ later ∈ times, later - now < ttl) (k : Kind) :
    let said := (Gate.caching ttl).supported (noted ask) now k (answers, (inner, log))
    ∃ more, said.2.2.2 = log ++ more ∧
      Recalls ttl times said.2.1 (before ++ (log ++ more)) ∧
      if k.isOptional then Table.get? (before ++ (log ++ more)) k = some said.1
        else said.1 = true := by
  unfold Gate.supported known?
  cases hk : k.isOptional with
  | false => exact ⟨[], (List.append_nil log).symm, by rwa [List.append_nil], rfl⟩
  | true =>
    cases hget : Table.get? answers k with
    | some answer =>
      obtain ⟨served, given⟩ := answer
      -- the answer is remembered, and still young
      have hyoung := h.young k served given hget now mem
      simp only [Bool.not_true, Bool.false_eq_true, if_false, if_pos hyoung, if_true]
      refine ⟨[], (List.append_nil log).symm, by rwa [List.append_nil], ?_⟩
      rw [List.append_nil, h.known, hget]
      rfl
    | none =>
      simp only [Bool.not_true, Bool.false_eq_true, if_false, if_true]
      have hnew := h.remember lasts hk hget (ask k inner).1
      rw [List.append_assoc] at hnew
      refine ⟨[(k, (ask k inner).1)], rfl, hnew, ?_⟩
      show Table.get? (before ++ (log ++ [(k, (ask k inner).1)])) k = some (ask k inner).1
      rw [hnew.known, Table.get?_insert, if_pos rfl]
      rfl

theorem missingOf {ks : List Kind} (once : ks.Nodup) (optional : ∀ k ∈ ks, k.isOptional = true)
    (h : Recalls ttl times answers (before ++ log)) (mem : now ∈ times)
    (lasts : ∀ later ∈ times, later - now < ttl) :
    let said := (Gate.caching ttl).missingOf (noted ask) now ks (answers, (inner, log))
    ∃ more, said.2.2.2 = log ++ more ∧
      Recalls ttl times said.2.1 (before ++ (log ++ more)) ∧
      Hears ks said.1 (before ++ (log ++ more)) := by
  induction ks generalizing answers inner log with
  | nil =>
    exact ⟨[], (List.append_nil log).symm, by rwa [List.append_nil],
      fun k hk => absurd hk List.not_mem_nil⟩
  | cons k ks ih =>
    obtain ⟨hnew, hrest⟩ := List.nodup_cons.mp once
    obtain ⟨first, hlog, hrecalls, hsaid⟩ := h.supported ask inner mem lasts k
    rw [if_pos (optional k List.mem_cons_self)] at hsaid
    unfold Gate.missingOf
    dsimp only
    generalize (Gate.caching ttl).supported (noted ask) now k (answers, (inner, log)) = said
      at hlog hrecalls hsaid ⊢
    obtain ⟨served, answers, inner, log'⟩ := said
    obtain rfl : log' = log ++ first := hlog
    obtain ⟨more, hlog, hrecalls, hears⟩ := ih inner hrest
      (fun l hl => optional l (List.mem_cons_of_mem _ hl)) hrecalls
    have honly := (Gate.caching ttl).missingOf_subset (noted ask) now ks
      (answers, (inner, log ++ first))
    rw [List.append_assoc] at hlog hrecalls hears
    refine ⟨first ++ more, hlog, hrecalls, hears.cons hnew honly ?_⟩
    -- what was heard of the first kind stays so
    rw [← List.append_assoc log, ← List.append_assoc, Table.get?_append, hsaid, Option.some_or]

/-- A query goes by what was heard before it and in its course. -/
theorem consult (h : Recalls ttl times answers heard) (mem : now ∈ times)
    (lasts : ∀ later ∈ times, later - now < ttl) (q : Query) :
    let said := (Gate.caching ttl).consult ask now q (answers, inner)
    Recalls ttl times said.2.1 (heard ++ said.1.asked) ∧ said.1.GoesBy (heard ++ said.1.asked) := by
  have hstart : Recalls ttl times answers (heard ++ []) := by rwa [List.append_nil]
  cases q with
  | supports k =>
    obtain ⟨more, hlog, hrecalls, hsaid⟩ := hstart.supported ask inner mem lasts k
    rw [List.nil_append] at hlog hrecalls hsaid
    unfold Gate.consult
    dsimp only
    rw [hlog]
    exact ⟨hrecalls, Consultation.goesBy_supports hsaid⟩
  | resolve =>
    have hoptional : ∀ k ∈ Kind.optionals, k.isOptional = true := by decide
    obtain ⟨more, hlog, hrecalls, hears⟩ :=
      hstart.missingOf ask inner (by decide) hoptional mem lasts
    have honly := (Gate.caching ttl).missingOf_subset (noted ask) now Kind.optionals
      (answers, (inner, []))
    rw [List.nil_append] at hlog hrecalls hears
    unfold Gate.consult resolve
    dsimp only
    rw [hlog]
    exact ⟨hrecalls, hears.goesBy honly⟩

/-- So it is with all queries in turn. -/
theorem consultAll {qs : List (Nat × Query)} (h : Recalls ttl times answers heard)
    (mem : ∀ q ∈ qs, q.1 ∈ times) (lasts : ∀ q ∈ qs, ∀ later ∈ times, later - q.1 < ttl) :
    let cs := (Gate.caching ttl).consultAll ask qs (answers, inner)
    (∃ answers, Recalls ttl times answers (heard ++ cs.flatMap Consultation.asked)) ∧
      ∀ c ∈ cs, c.GoesBy (heard ++ cs.flatMap Consultation.asked) := by
  induction qs generalizing answers heard inner with
  | nil =>
    refine ⟨⟨answers, ?_⟩, fun c hc => absurd hc List.not_mem_nil⟩
    simpa [Gate.consultAll] using h
  | cons q qs ih =>
    obtain ⟨hrecalls, hgoes⟩ := h.consult ask inner (mem q List.mem_cons_self)
      (lasts q List.mem_cons_self) q.2
    obtain ⟨hlast, hrest⟩ := ih ((Gate.caching ttl).consult ask q.1 q.2 (answers, inner)).2.2
      hrecalls (fun p hp => mem p (List.mem_cons_of_mem _ hp))
      (fun p hp => lasts p (List.mem_cons_of_mem _ hp))
    unfold Gate.consultAll
    dsimp only
    rw [List.flatMap_cons, ← List.append_assoc]
    refine ⟨hlast, fun c hc => ?_⟩
    rcases List.mem_cons.mp hc with rfl | hc
    · exact hgoes.later _
    · exact hrest c hc

end Recalls

theorem recalls_nothing (ttl : Nat) (times : List Nat) : Recalls ttl times [] [] where
  once := List.nodup_nil
  optional := fun _ hk => absurd hk List.not_mem_nil
  known _ := rfl
  young := fun _ _ _ h => absurd h nofun

/-! ## §5. Both extremes -/

/-- A gate with a cache is asked queries in any mixture, each at a time, and its discovery answers
    as it likes from call to call.  If no answer ever gets as old as the time to live, discovery is
    asked for each kind at most once, and only for kinds that a cluster may lack; what the gate
    says of such a kind is always the one answer that discovery gave.  If the time to live is zero,
    every query asks discovery for the optional kinds it is about, each of them once, and goes by
    the answers it gets then, as it would without a cache. -/
theorem consultAll_caching (ask : Kind → σ → Bool × σ) (inner : σ) (qs : List (Nat × Query)) :
    (∀ ttl, (∀ p ∈ qs, ∀ q ∈ qs, q.1 - p.1 < ttl) →
      let cs := (Gate.caching ttl).consultAll ask qs ([], inner)
      cs.map Consultation.query = qs.map Prod.snd ∧
        (Table.keys (cs.flatMap Consultation.asked)).Nodup ∧
        (∀ k ∈ Table.keys (cs.flatMap Consultation.asked), k.isOptional = true) ∧
        ∀ c ∈ cs, c.GoesBy (cs.flatMap Consultation.asked)) ∧
    let cs := (Gate.caching 0).consultAll ask qs ([], inner)
    cs.map Consultation.query = qs.map Prod.snd ∧
      (∀ c ∈ cs, Table.keys c.asked = c.query.kinds ∧ c.GoesBy c.asked) ∧
      cs = Gate.asking.consultAll ask qs ([], inner) := by
  refine ⟨fun ttl lasts => ?_, ?_⟩
  · have hlasts : ∀ p ∈ qs, ∀ later ∈ qs.map Prod.fst, later - p.1 < ttl := by
      intro p hp later hlater
      obtain ⟨q, hq, rfl⟩ := List.mem_map.mp hlater
      exact lasts p hp q hq
    obtain ⟨⟨answers, hrecalls⟩, hgoes⟩ := (recalls_nothing ttl (qs.map Prod.fst)).consultAll
      ask inner (fun q hq => List.mem_map_of_mem hq) hlasts
    exact ⟨queries_consultAll _ ask qs _, hrecalls.once, hrecalls.optional, hgoes⟩
  · have hsame := consultAll_zero ask qs [] [] inner
    refine ⟨queries_consultAll _ ask qs _, ?_, hsame⟩
    rw [hsame]
    exact consultAll_asking ask qs _

/-- A discovery that takes back its first answer for two of the kinds. -/
def flipping : ScriptedDiscovery where
  answers := [(.gateway, [false, true]), (.httpRoute, [true, false])]

/-- Single questions and resolutions, within fifty minutes. -/
def mixture : List (Nat × Query) :=
  [(0, .supports .gateway), (5, .resolve), (9, .supports .deployment), (12, .supports .gateway),
    (3000, .resolve)]

/-- A cache that lasts an hour keeps the first answers.  Without one, gateways are found later and
    routes are lost in the end. -/
theorem consultAll_caching_flipping :
    let lasting := (Gate.caching 3600).consultAll ScriptedDiscovery.ask mixture ([], flipping)
    let fresh := (Gate.caching 0).consultAll ScriptedDiscovery.ask mixture ([], flipping)
    (∀ p ∈ mixture, ∀ q ∈ mixture, q.1 - p.1 < 3600) ∧
      lasting.flatMap Consultation.asked = [(.gateway, false), (.httpRoute, true),
        (.referenceGrant, true), (.destinationRule, true)] ∧
      (∀ c ∈ lasting, c.GoesBy (lasting.flatMap Consultation.asked)) ∧
      fresh.map Consultation.asked = [[(.gateway, false)],
        [(.gateway, true), (.httpRoute, true), (.referenceGrant, true), (.destinationRule, true)],
        [], [(.gateway, true)],
        [(.gateway, true), (.httpRoute, false), (.referenceGrant, true),
          (.destinationRule, true)]] ∧
      ∀ c ∈ fresh, Table.keys c.asked = c.query.kinds ∧ c.GoesBy c.asked := by
  have hlasts : ∀ p ∈ mixture, ∀ q ∈ mixture, q.1 - p.1 < 3600 := by decide
  have h := consultAll_caching ScriptedDiscovery.ask flipping mixture
  obtain ⟨-, -, -, hgoes⟩ := h.1 3600 hlasts
  obtain ⟨-, hfresh, -⟩ := h.2
  exact ⟨hlasts, by decide +kernel, hgoes, by decide +kernel, hfresh⟩

end Converge.Gate
