import DalvikHorn.Compile.Program
import DalvikHorn.Dispatch.Cache
import DalvikHorn.Proofs.Inheritance
import Mathlib.Data.List.Dedup

/-!
# Dispatch through a cache

A program is compiled through a cache of its dispatch oracle.  Which answers the
cache holds at some point depends on all that was asked before, also for other
methods.  What it answers does not.

## Strategy

* **Invariant.**  `DispatchCache.Holds`: the cache holds the answers of the oracle to
  the questions that were asked, and each of them once.
* **Step.**  One question gets the answer of the oracle, and the cache then holds that
  answer as well (`DispatchCache.Holds.answer`).
* **Run.**  A list of questions gets the answers of the oracle, and as many answers are
  kept as there are different questions (`DispatchCache.answers_eq`).

An oracle that answers every question from a cache that was reached in this way is
therefore the oracle itself, and a program compiles to the same through either.
-/

namespace DalvikHorn

/-! ## Tables -/

theorem notMem_keys_of_lookup_eq_none {κ β : Type} [BEq κ] [LawfulBEq κ] {table : List (κ × β)}
    {key : κ} (h : table.lookup key = none) : key ∉ table.map Prod.fst := by
  intro hmem
  obtain ⟨entry, hentry, rfl⟩ := List.mem_map.mp hmem
  exact absurd rfl (bne_iff_ne.mp (List.lookup_eq_none_iff.mp h entry hentry))

/-! ## Questions -/

/-- What is asked through a cache. -/
inductive DispatchQuestion where
  | virtual (owner : ClassId) (method : MethodId)
  | static (owner : ClassId) (method : MethodId)
  deriving DecidableEq

/-- What is answered. -/
inductive DispatchAnswer where
  | implementations (found : Option (List Implementation))
  | definitions (found : Option (List Definition))

/-- The answer of an oracle to a question. -/
def Oracle.answer (oracle : Oracle) : DispatchQuestion → DispatchAnswer
  | .virtual owner method => .implementations (oracle.resolveVirtual owner method)
  | .static owner method => .definitions (oracle.resolveStatic owner method)

namespace DispatchCache

/-- The answer through a cache, and the cache then. -/
def answer (oracle : Oracle) (cache : DispatchCache) : DispatchQuestion →
    DispatchAnswer × DispatchCache
  | .virtual owner method => (cache.resolveVirtual oracle owner method).map .implementations id
  | .static owner method => (cache.resolveStatic oracle owner method).map .definitions id

/-- The answers to some questions one after the other, and the cache at the end. -/
def answers (oracle : Oracle) : DispatchCache → List DispatchQuestion →
    List DispatchAnswer × DispatchCache
  | cache, [] => ([], cache)
  | cache, question :: rest =>
      let (given, next) := answer oracle cache question
      (answers oracle next rest).map (given :: ·) id

/-- The questions that a cache has an answer to. -/
def questions (cache : DispatchCache) : List DispatchQuestion :=
  cache.virtualTargets.map (fun entry => .virtual entry.1.1 entry.1.2) ++
    cache.staticTargets.map (fun entry => .static entry.1.1 entry.1.2)

theorem length_questions (cache : DispatchCache) : cache.questions.length = cache.size := by
  rw [questions, List.length_append, List.length_map, List.length_map, size]

variable {oracle : Oracle} {cache : DispatchCache} {asked : List DispatchQuestion}

theorem virtual_mem_questions {owner : ClassId} {method : MethodId} :
    .virtual owner method ∈ cache.questions ↔
      (owner, method) ∈ cache.virtualTargets.map Prod.fst := by
  simp [questions]

theorem static_mem_questions {owner : ClassId} {method : MethodId} :
    .static owner method ∈ cache.questions ↔
      (owner, method) ∈ cache.staticTargets.map Prod.fst := by
  simp [questions]

/-! ## What a cache holds -/

/-- A cache holds the answers of an oracle to the questions that were asked, each of them once. -/
structure Holds (cache : DispatchCache) (oracle : Oracle) (asked : List DispatchQuestion) :
    Prop where
  virtualTargets : ∀ entry ∈ cache.virtualTargets,
    entry.2 = oracle.resolveVirtual entry.1.1 entry.1.2
  staticTargets : ∀ entry ∈ cache.staticTargets,
    entry.2 = oracle.resolveStatic entry.1.1 entry.1.2
  nodup : cache.questions.Nodup
  mem_questions : ∀ question, question ∈ cache.questions ↔ question ∈ asked

/-- The empty cache holds no answers. -/
theorem holds_empty (oracle : Oracle) : ({} : DispatchCache).Holds oracle [] where
  virtualTargets := nofun
  staticTargets := nofun
  nodup := List.nodup_nil
  mem_questions := fun _ => Iff.rfl

/-- A question whose answer is kept may be asked again. -/
theorem Holds.again (h : cache.Holds oracle asked) {question : DispatchQuestion}
    (hkept : question ∈ cache.questions) : cache.Holds oracle (question :: asked) where
  virtualTargets := h.virtualTargets
  staticTargets := h.staticTargets
  nodup := h.nodup
  mem_questions other := by
    rw [h.mem_questions, List.mem_cons]
    refine ⟨.inr, ?_⟩
    rintro (rfl | hother)
    · exact (h.mem_questions _).mp hkept
    · exact hother

/-- The implementations of a method are those of the oracle, and they are kept. -/
theorem Holds.resolveVirtual (h : cache.Holds oracle asked) (owner : ClassId) (method : MethodId) :
    (cache.resolveVirtual oracle owner method).1 = oracle.resolveVirtual owner method ∧
      (cache.resolveVirtual oracle owner method).2.Holds oracle
        (.virtual owner method :: asked) := by
  unfold DispatchCache.resolveVirtual
  cases hlookup : cache.virtualTargets.lookup (owner, method) with
  | some known =>
      have hentry := mem_of_lookup_eq_some hlookup
      have hkept := virtual_mem_questions.mpr (List.mem_map_of_mem hentry)
      exact ⟨h.virtualTargets _ hentry, h.again hkept⟩
  | none =>
      have hnew : DispatchQuestion.virtual owner method ∉ cache.questions :=
        mt virtual_mem_questions.mp (notMem_keys_of_lookup_eq_none hlookup)
      refine ⟨rfl, ?_, h.staticTargets, List.nodup_cons.mpr ⟨hnew, h.nodup⟩, fun other => ?_⟩
      · exact List.forall_mem_cons.mpr ⟨rfl, h.virtualTargets⟩
      · exact List.mem_cons.trans ((or_congr_right (h.mem_questions other)).trans List.mem_cons.symm)

/-- The definitions of a method are those of the oracle, and they are kept. -/
theorem Holds.resolveStatic (h : cache.Holds oracle asked) (owner : ClassId) (method : MethodId) :
    (cache.resolveStatic oracle owner method).1 = oracle.resolveStatic owner method ∧
      (cache.resolveStatic oracle owner method).2.Holds oracle (.static owner method :: asked) := by
  unfold DispatchCache.resolveStatic
  cases hlookup : cache.staticTargets.lookup (owner, method) with
  | some known =>
      have hentry := mem_of_lookup_eq_some hlookup
      have hkept := static_mem_questions.mpr (List.mem_map_of_mem hentry)
      exact ⟨h.staticTargets _ hentry, h.again hkept⟩
  | none =>
      have hnew : DispatchQuestion.static owner method ∉ cache.questions :=
        mt static_mem_questions.mp (notMem_keys_of_lookup_eq_none hlookup)
      -- the new question stands behind those about virtual calls
      have hperm : (questions { cache with
          staticTargets := ((owner, method), oracle.resolveStatic owner method) ::
            cache.staticTargets }).Perm (.static owner method :: cache.questions) :=
        List.perm_middle
      refine ⟨rfl, h.virtualTargets, ?_, ?_, fun other => ?_⟩
      · exact List.forall_mem_cons.mpr ⟨rfl, h.staticTargets⟩
      · exact hperm.nodup_iff.mpr (List.nodup_cons.mpr ⟨hnew, h.nodup⟩)
      · rw [hperm.mem_iff, List.mem_cons, List.mem_cons, h.mem_questions]

/-! ## Runs -/

/-- A question gets the answer of the oracle, and the answer is kept. -/
theorem Holds.answer (h : cache.Holds oracle asked) (question : DispatchQuestion) :
    (DispatchCache.answer oracle cache question).1 = oracle.answer question ∧
      (DispatchCache.answer oracle cache question).2.Holds oracle (question :: asked) := by
  cases question with
  | virtual owner method =>
      obtain ⟨hfound, hholds⟩ := h.resolveVirtual owner method
      exact ⟨congrArg _ hfound, hholds⟩
  | static owner method =>
      obtain ⟨hfound, hholds⟩ := h.resolveStatic owner method
      exact ⟨congrArg _ hfound, hholds⟩

theorem Holds.answers (h : cache.Holds oracle asked) (questions : List DispatchQuestion) :
    (DispatchCache.answers oracle cache questions).1 = questions.map oracle.answer ∧
      (DispatchCache.answers oracle cache questions).2.Holds oracle (questions.reverse ++ asked) := by
  induction questions generalizing cache asked with
  | nil => exact ⟨rfl, h⟩
  | cons question rest ih =>
      obtain ⟨hgiven, hholds⟩ := h.answer question
      obtain ⟨hrest, hfinal⟩ := ih hholds
      rw [DispatchCache.answers, List.map_cons, List.reverse_cons, List.append_assoc]
      exact ⟨congrArg₂ List.cons hgiven hrest, hfinal⟩

/-- As many answers are kept as different questions were asked. -/
theorem Holds.size_eq (h : cache.Holds oracle asked) : cache.size = asked.dedup.length := by
  have hperm : cache.questions.Perm asked.dedup :=
    (List.perm_ext_iff_of_nodup h.nodup asked.nodup_dedup).mpr fun question =>
      (h.mem_questions question).trans List.mem_dedup.symm
  rw [← length_questions, hperm.length_eq]

/-- Questions that are asked through an empty cache get the answers of the oracle, and every answer
is kept once. -/
theorem answers_eq (oracle : Oracle) (questions : List DispatchQuestion) :
    (answers oracle {} questions).1 = questions.map oracle.answer ∧
      (answers oracle {} questions).2.size = questions.dedup.length := by
  obtain ⟨hgiven, hholds⟩ := (holds_empty oracle).answers questions
  have hreversed : (questions.reverse ++ []).dedup.Perm questions.dedup := by
    rw [List.append_nil]
    exact (List.reverse_perm questions).dedup
  exact ⟨hgiven, hholds.size_eq.trans hreversed.length_eq⟩

/-- A cache that is empty at first and has then been asked some questions. -/
def Reached (oracle : Oracle) (cache : DispatchCache) : Prop :=
  ∃ questions, cache = (answers oracle {} questions).2

theorem Reached.holds (h : Reached oracle cache) : ∃ asked, cache.Holds oracle asked := by
  obtain ⟨questions, rfl⟩ := h
  exact ⟨_, ((holds_empty oracle).answers questions).2⟩

end DispatchCache

/-! ## Compilation -/

/-- The oracle that answers from caches: every question may find the cache in another state. -/
def Oracle.cached (oracle : Oracle) (states : DispatchQuestion → DispatchCache) : Oracle :=
  { oracle with
    resolveVirtual := fun owner method =>
      ((states (.virtual owner method)).resolveVirtual oracle owner method).1
    resolveStatic := fun owner method =>
      ((states (.static owner method)).resolveStatic oracle owner method).1 }

/-- Answers from caches are the answers of the oracle. -/
theorem Oracle.cached_eq {oracle : Oracle} {states : DispatchQuestion → DispatchCache}
    (hstates : ∀ question, DispatchCache.Reached oracle (states question)) :
    oracle.cached states = oracle := by
  have hvirtual : ∀ owner method,
      ((states (.virtual owner method)).resolveVirtual oracle owner method).1 =
        oracle.resolveVirtual owner method := by
    intro owner method
    obtain ⟨asked, hholds⟩ := (hstates (.virtual owner method)).holds
    exact (hholds.resolveVirtual owner method).1
  have hstatic : ∀ owner method,
      ((states (.static owner method)).resolveStatic oracle owner method).1 =
        oracle.resolveStatic owner method := by
    intro owner method
    obtain ⟨asked, hholds⟩ := (hstates (.static owner method)).holds
    exact (hholds.resolveStatic owner method).1
  simp only [cached, hvirtual, hstatic]

/-- A program compiles to the same with the answers that it gives itself and with those of a
cache. -/
theorem Program.compile_eq_cached (program : Program) (config : Config) {labels : Labels}
    (hlabels : config.labels = .ok labels) {states : DispatchQuestion → DispatchCache}
    (hstates : ∀ question, DispatchCache.Reached (program.oracle labels) (states question)) :
    program.compile config =
      program.compileWith config ((program.oracle labels).cached states) .together := by
  rw [Oracle.cached_eq hstates, Program.compile, hlabels]
  unfold compileWith
  cases config.validate with
  | error cause => rfl
  | ok _ => rfl

end DalvikHorn
