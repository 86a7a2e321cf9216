import DalvikHorn.Dispatch.Hierarchy
import Mathlib.Data.Finset.Card
import Mathlib.Data.Finset.Dedup
import Mathlib.Logic.Relation

/-!
# Walks over a class table

The walks over a class table compute what they are meant to on every table, also
when classes are unknown, inherit from each other in a circle or share an
identifier.

* `mem_superChain_iff`: the chain of superclasses has the classes that steps to the
  superclass lead to.
* `isSubtype_iff`: a class is a subtype of those that are reached by steps to a
  superclass and then by steps to an interface.
* `lookup?_eq_some_iff`: the look-up of a method finds the first class on the way up
  that defines it.

## Strategy

* **Fuel.**  Every class that a walk goes on from is one of the table and has not been
  met before, so there is always more fuel than there are classes left
  (`ClassTable.unmet`).
* **Circles.**  A walk that ends without success has met a set of classes that no step
  leads out of, and such a set has everything that can be reached.  The search for an
  interface passes the classes that it has met from one start to the next; what it
  knows about them is `Explores`.
-/

namespace DalvikHorn

theorem mem_of_lookup_eq_some {κ β : Type} [BEq κ] [LawfulBEq κ] {table : List (κ × β)} {key : κ}
    {found : β} (h : table.lookup key = some found) : (key, found) ∈ table := by
  obtain ⟨before, after, rfl, -⟩ := List.lookup_eq_some_iff.mp h
  exact List.mem_append_right _ List.mem_cons_self

namespace ClassTable

variable (table : ClassTable)

/-! ## Steps -/

/-- A class names another one as its superclass. -/
def Extends (id next : ClassId) : Prop :=
  table.superOf? id = some next

/-- A class names another one as an interface. -/
def Implements (id next : ClassId) : Prop :=
  ∃ decl, table.class? id = some decl ∧ next ∈ decl.interfaces.map textHash

/-- A class is another one or inherits from it: some superclass of it is the other one or
implements it. -/
def Inherits (id ancestor : ClassId) : Prop :=
  ∃ above, Relation.ReflTransGen table.Extends id above ∧
    Relation.ReflTransGen table.Implements above ancestor

/-- A class declares a method whose arguments fit into its registers. -/
def Defines (method : MethodId) (id : ClassId) : Prop :=
  ∃ decl, table.class? id = some decl ∧
    ∃ candidate ∈ decl.methods, candidate.id = method ∧ candidate.shape.WellFormed

/-- The first class that defines a method, from a class upwards. -/
inductive NearestDefinition (method : MethodId) : ClassId → ClassId → Prop
  | here {id : ClassId} (h : table.Defines method id) : NearestDefinition method id id
  | above {id next target : ClassId} (h : ¬ table.Defines method id)
      (hnext : table.Extends id next) (hrest : NearestDefinition method next target) :
      NearestDefinition method id target

variable {table}

/-- What a class defines is found at one place only. -/
theorem NearestDefinition.unique {method : MethodId} {id first second : ClassId}
    (hfirst : table.NearestDefinition method id first)
    (hsecond : table.NearestDefinition method id second) : first = second := by
  induction hfirst with
  | here hdefines =>
      cases hsecond with
      | here _ => rfl
      | above hnot _ _ => exact absurd hdefines hnot
  | above hnot hnext _ ih =>
      cases hsecond with
      | here hdefines => exact absurd hdefines hnot
      | above _ hnext' hrest =>
          cases Option.some.inj (hnext.symm.trans hnext')
          exact ih hrest

/-- The nearest definition is in a superclass that defines the method. -/
theorem NearestDefinition.reaches {method : MethodId} {id target : ClassId}
    (h : table.NearestDefinition method id target) :
    Relation.ReflTransGen table.Extends id target ∧ table.Defines method target := by
  induction h with
  | here hdefines => exact ⟨.refl, hdefines⟩
  | above _ hnext _ ih => exact ⟨.head hnext ih.1, ih.2⟩

/-- A set that no step leads out of has everything that can be reached from it. -/
theorem mem_of_reflTransGen {step : ClassId → ClassId → Prop} {ids : List ClassId}
    (hclosed : ∀ id ∈ ids, ∀ next, step id next → next ∈ ids) {id target : ClassId}
    (hid : id ∈ ids) (hreach : Relation.ReflTransGen step id target) : target ∈ ids := by
  induction hreach with
  | refl => exact hid
  | tail _ hstep ih => exact hclosed _ ih _ hstep

/-! ## Fuel -/

/-- The classes of a table that have not been met. -/
def unmet (table : ClassTable) (met : List ClassId) : Finset ClassId :=
  (table.classes.map Prod.fst).toFinset.filter (· ∉ met)

theorem mem_ids_of_class? {id : ClassId} {decl : Class} (h : table.class? id = some decl) :
    id ∈ table.classes.map Prod.fst :=
  List.mem_map_of_mem (mem_of_lookup_eq_some h)

theorem card_unmet_cons {met : List ClassId} {id : ClassId} {decl : Class}
    (hdecl : table.class? id = some decl) (hid : id ∉ met) :
    (table.unmet (id :: met)).card < (table.unmet met).card := by
  refine Finset.card_lt_card (Finset.ssubset_iff_of_subset ?_ |>.mpr ⟨id, ?_, ?_⟩)
  · intro other hother
    simp only [unmet, Finset.mem_filter, List.mem_cons, not_or] at hother ⊢
    exact ⟨hother.1, hother.2.2⟩
  · simpa [unmet, hid] using mem_ids_of_class? hdecl
  · simp [unmet]

theorem card_unmet_le (table : ClassTable) {met more : List ClassId} (h : met ⊆ more) :
    (table.unmet more).card ≤ (table.unmet met).card := by
  refine Finset.card_le_card fun id hid => ?_
  simp only [unmet, Finset.mem_filter] at hid ⊢
  exact ⟨hid.1, fun hmem => hid.2 (h hmem)⟩

theorem card_unmet_le_length (table : ClassTable) (met : List ClassId) :
    (table.unmet met).card ≤ table.classes.length := by
  calc (table.unmet met).card
      ≤ (table.classes.map Prod.fst).toFinset.card := Finset.card_filter_le _ _
    _ ≤ (table.classes.map Prod.fst).length := List.toFinset_card_le _
    _ = table.classes.length := List.length_map _

/-! ## Superclasses -/

theorem reaches_of_mem_superChainFrom {met : List ClassId} {fuel : Nat} {id target : ClassId}
    (h : target ∈ table.superChainFrom met fuel id) :
    Relation.ReflTransGen table.Extends id target := by
  induction fuel generalizing met id with
  | zero => cases h
  | succ fuel ih =>
      rw [superChainFrom] at h
      split at h
      · cases h
      · rcases List.mem_cons.mp h with rfl | hrest
        · exact .refl
        · split at hrest
          · rename_i next hnext
            exact .head hnext (ih hrest)
          · cases hrest

/-- No step leads out of the classes that have been met together with the rest of the chain,
when none but the last of those that have been met leads to another class. -/
theorem superChainFrom_closed {met : List ClassId} {fuel : Nat} {id : ClassId}
    (hfuel : (table.unmet met).card < fuel)
    (hmet : ∀ other ∈ met, ∀ next, table.Extends other next → next ∈ met ∨ next = id) :
    id ∈ met ++ table.superChainFrom met fuel id ∧
      ∀ other ∈ met ++ table.superChainFrom met fuel id, ∀ next, table.Extends other next →
        next ∈ met ++ table.superChainFrom met fuel id := by
  induction fuel generalizing met id with
  | zero => exact absurd hfuel (Nat.not_lt_zero _)
  | succ fuel ih =>
      rw [superChainFrom]
      by_cases hid : id ∈ met
      · -- the chain has come back to a class that it has met
        rw [if_pos (List.contains_iff_mem.mpr hid), List.append_nil]
        refine ⟨hid, fun other hother next hnext => ?_⟩
        rcases hmet other hother next hnext with hmem | rfl
        · exact hmem
        · exact hid
      · rw [if_neg (fun hcontains => hid (List.contains_iff_mem.mp hcontains))]
        refine ⟨by simp, ?_⟩
        cases hsuper : table.superOf? id with
        | none =>
            intro other hother next hnext
            rcases List.mem_append.mp hother with hother | hother
            · rcases hmet other hother next hnext with hmem | rfl
              · exact List.mem_append_left _ hmem
              · simp
            · rw [List.mem_singleton.mp hother, Extends, hsuper] at hnext
              cases hnext
        | some above =>
            -- a class with a superclass is in the table, so one less is left to be met
            obtain ⟨decl, hdecl, -⟩ := Option.bind_eq_some_iff.mp hsuper
            have hleft : (table.unmet (id :: met)).card < fuel :=
              Nat.lt_of_lt_of_le (card_unmet_cons hdecl hid) (Nat.le_of_lt_succ hfuel)
            have hmore : ∀ other ∈ id :: met, ∀ next, table.Extends other next →
                next ∈ id :: met ∨ next = above := by
              intro other hother next hnext
              rcases List.mem_cons.mp hother with rfl | hother
              · exact .inr (Option.some.inj (hnext.symm.trans hsuper))
              · rcases hmet other hother next hnext with hmem | rfl
                · exact .inl (List.mem_cons_of_mem _ hmem)
                · exact .inl List.mem_cons_self
            have hrest := (ih hleft hmore).2
            have hperm : ∀ other, other ∈ met ++ id :: table.superChainFrom (id :: met) fuel above ↔
                other ∈ (id :: met) ++ table.superChainFrom (id :: met) fuel above := by
              intro other
              simp only [List.mem_append, List.mem_cons]
              tauto
            intro other hother next hnext
            rw [hperm] at hother ⊢
            exact hrest other hother next hnext

/-- The chain of superclasses has the classes that can be reached by steps to the superclass. -/
theorem mem_superChain_iff {id target : ClassId} :
    target ∈ table.superChain id ↔ Relation.ReflTransGen table.Extends id target := by
  refine ⟨reaches_of_mem_superChainFrom, fun hreach => ?_⟩
  have hnone : ∀ other ∈ ([] : List ClassId), ∀ next, table.Extends other next →
      next ∈ [] ∨ next = id := by simp
  obtain ⟨hid, hclosed⟩ :=
    superChainFrom_closed (Nat.lt_succ_of_le (table.card_unmet_le_length [])) hnone
  exact mem_of_reflTransGen hclosed hid hreach

/-! ## Interfaces -/

/-- One more start of a search, unless the search has already succeeded. -/
def searchNext (search : List ClassId → ClassId → Bool × List ClassId)
    (state : Bool × List ClassId) (next : ClassId) : Bool × List ClassId :=
  if state.1 then (true, state.2) else search state.2 next

theorem foldl_searchNext_true (search : List ClassId → ClassId → Bool × List ClassId)
    (met starts : List ClassId) :
    starts.foldl (searchNext search) (true, met) = (true, met) := by
  induction starts with
  | nil => rfl
  | cons start rest ih => exact ih

/-- What a search for an interface knows in the end, when it was begun from some starts and some
classes had been met before. -/
structure Explores (table : ClassTable) (interface : ClassId) (met starts : List ClassId)
    (result : Bool × List ClassId) : Prop where
  found : result.1 = true →
    ∃ start ∈ starts, Relation.ReflTransGen table.Implements start interface
  kept : met ⊆ result.2
  visited : result.1 = false → starts ⊆ result.2
  /-- The classes that have been met since then are fully explored. -/
  explored : result.1 = false → ∀ id ∈ result.2, id ∉ met →
    id ≠ interface ∧ ∀ next, table.Implements id next → next ∈ result.2

/-- A search from several starts, one after the other. -/
theorem explores_foldl {interface : ClassId}
    {search : List ClassId → ClassId → Bool × List ClassId} {starts met : List ClassId}
    (hsearch : ∀ more, met ⊆ more → ∀ start ∈ starts,
      table.Explores interface more [start] (search more start)) :
    table.Explores interface met starts (starts.foldl (searchNext search) (false, met)) := by
  induction starts generalizing met with
  | nil =>
      exact ⟨nofun, List.Subset.refl _, fun _ => List.nil_subset _,
        fun _ id hid hnew => absurd hid hnew⟩
  | cons start rest ih =>
      have hfirst := hsearch met (List.Subset.refl _) start List.mem_cons_self
      rw [List.foldl_cons]
      change table.Explores interface met (start :: rest)
        (rest.foldl (searchNext search) (search met start))
      generalize search met start = first at hfirst ⊢
      obtain ⟨found, more⟩ := first
      cases found with
      | true =>
          rw [foldl_searchNext_true]
          refine ⟨fun _ => ?_, hfirst.kept, nofun, nofun⟩
          obtain ⟨other, hother, hreach⟩ := hfirst.found rfl
          rw [List.mem_singleton] at hother
          exact ⟨start, List.mem_cons_self, hother ▸ hreach⟩
      | false =>
          have hrest := ih fun most (hmost : more ⊆ most) other hother =>
            hsearch most (List.Subset.trans hfirst.kept hmost) other (List.mem_cons_of_mem _ hother)
          refine ⟨fun h => ?_, List.Subset.trans hfirst.kept hrest.kept, fun h => ?_, fun h => ?_⟩
          · obtain ⟨other, hother, hreach⟩ := hrest.found h
            exact ⟨other, List.mem_cons_of_mem _ hother, hreach⟩
          · refine List.cons_subset.mpr ⟨?_, hrest.visited h⟩
            exact hrest.kept (hfirst.visited rfl List.mem_cons_self)
          · intro id hid hnew
            -- either the first search has met the class, or one of the others has
            by_cases hmore : id ∈ more
            · obtain ⟨hne, hnext⟩ := hfirst.explored rfl id hmore hnew
              exact ⟨hne, fun next himplements => hrest.kept (hnext next himplements)⟩
            · exact hrest.explored h id hid hmore

theorem explores_reachesInterface {interface : ClassId} {fuel : Nat} {met : List ClassId}
    (hfuel : (table.unmet met).card < fuel) (candidate : ClassId) :
    table.Explores interface met [candidate]
      (table.reachesInterface interface fuel met candidate) := by
  induction fuel generalizing met candidate with
  | zero => exact absurd hfuel (Nat.not_lt_zero _)
  | succ fuel ih =>
      rw [reachesInterface]
      by_cases hfound : candidate = interface
      · rw [if_pos hfound]
        exact ⟨fun _ => ⟨candidate, List.mem_singleton_self _, hfound ▸ .refl⟩,
          List.Subset.refl _, nofun, nofun⟩
      rw [if_neg hfound]
      by_cases hmet : candidate ∈ met
      · rw [if_pos (List.contains_iff_mem.mpr hmet)]
        exact ⟨nofun, List.Subset.refl _,
          fun _ => List.cons_subset.mpr ⟨hmet, List.nil_subset _⟩,
          fun _ id hid hnew => absurd hid hnew⟩
      rw [if_neg (fun hcontains => hmet (List.contains_iff_mem.mp hcontains))]
      cases hdecl : table.class? candidate with
      | none =>
          -- a class outside the table names no interfaces
          refine ⟨nofun, List.subset_cons_self _ _, fun _ => by simp, ?_⟩
          intro _ id hid hnew
          obtain rfl : id = candidate := (List.mem_cons.mp hid).resolve_right hnew
          refine ⟨hfound, fun next hnext => ?_⟩
          obtain ⟨decl, hsome, -⟩ := hnext
          rw [hdecl] at hsome
          cases hsome
      | some decl =>
          have hrest : table.Explores interface (candidate :: met) (decl.interfaces.map textHash)
              ((decl.interfaces.map textHash).foldl
                (searchNext fun met next => table.reachesInterface interface fuel met next)
                (false, candidate :: met)) := by
            refine explores_foldl fun more hmore next _ => ih ?_ next
            have hless := card_unmet_cons hdecl hmet
            have hleft := table.card_unmet_le hmore
            omega
          refine ⟨fun h => ?_, fun id hid => hrest.kept (List.mem_cons_of_mem _ hid),
            fun _ => ?_, fun h id hid hnew => ?_⟩
          · obtain ⟨next, hnext, hreach⟩ := hrest.found h
            exact ⟨candidate, List.mem_singleton_self _, .head ⟨decl, hdecl, hnext⟩ hreach⟩
          · exact List.cons_subset.mpr ⟨hrest.kept List.mem_cons_self, List.nil_subset _⟩
          · by_cases hself : id = candidate
            · subst hself
              refine ⟨hfound, fun next hnext => ?_⟩
              obtain ⟨other, hother, hmem⟩ := hnext
              cases Option.some.inj (hdecl.symm.trans hother)
              exact hrest.visited h hmem
            · exact hrest.explored h id hid (by simp [hself, hnew])

/-- A class is a subtype of exactly those that it inherits from. -/
theorem isSubtype_iff {candidate ancestor : ClassId} :
    table.isSubtype candidate ancestor = true ↔ table.Inherits candidate ancestor := by
  have hsearch : table.Explores ancestor [] (table.superChain candidate)
      ((table.superChain candidate).foldl (searchNext fun met next =>
        table.reachesInterface ancestor (table.classes.length + 2) met next) (false, [])) := by
    refine explores_foldl fun more _ start _ => explores_reachesInterface ?_ start
    have hleft := table.card_unmet_le_length more
    omega
  change ((table.superChain candidate).foldl (searchNext fun met next =>
    table.reachesInterface ancestor (table.classes.length + 2) met next) (false, [])).1 = true ↔ _
  constructor
  · intro h
    obtain ⟨above, habove, hreach⟩ := hsearch.found h
    exact ⟨above, mem_superChain_iff.mp habove, hreach⟩
  · rintro ⟨above, hsupers, hreach⟩
    by_contra hfailed
    rw [Bool.not_eq_true] at hfailed
    have hexplored := hsearch.explored hfailed
    have hmet := mem_of_reflTransGen (fun id hid => (hexplored id hid (by simp)).2)
      (hsearch.visited hfailed (mem_superChain_iff.mpr hsupers)) hreach
    exact (hexplored ancestor hmet (by simp)).1 rfl

/-! ## Definitions of methods -/

theorem defines_of_declaredShape? {method : MethodId} {id : ClassId} {shape : FrameShape}
    (h : table.declaredShape? id method = some shape) :
    ∃ decl, table.class? id = some decl ∧ ∃ candidate ∈ decl.methods, candidate.id = method ∧
      candidate.shape.WellFormed ∧ shape = candidate.shape := by
  obtain ⟨decl, hdecl, hfound⟩ := Option.bind_eq_some_iff.mp h
  obtain ⟨candidate, hcandidate, rfl⟩ := Option.map_eq_some_iff.mp hfound
  have hfits := List.find?_some hcandidate
  simp only [Bool.and_eq_true, decide_eq_true_eq, beq_iff_eq] at hfits
  exact ⟨decl, hdecl, candidate, List.mem_reverse.mp (List.mem_of_find?_eq_some hcandidate),
    hfits.2, hfits.1, rfl⟩

theorem exists_declaredShape?_iff {method : MethodId} {id : ClassId} :
    (∃ shape, table.declaredShape? id method = some shape) ↔ table.Defines method id := by
  constructor
  · rintro ⟨shape, hshape⟩
    obtain ⟨decl, hdecl, candidate, hmem, hid, hfits, -⟩ := defines_of_declaredShape? hshape
    exact ⟨decl, hdecl, candidate, hmem, hid, hfits⟩
  · rintro ⟨decl, hdecl, candidate, hmem, hid, hfits⟩
    rw [← Option.isSome_iff_exists]
    simp only [declaredShape?, hdecl, Option.bind_some, Option.isSome_map, List.find?_isSome]
    exact ⟨candidate, List.mem_reverse.mpr hmem, by simp [hfits, hid]⟩

/-- What is found on a chain of superclasses is the nearest definition. -/
theorem nearest_of_findSome? {method : MethodId} {met : List ClassId} {fuel : Nat}
    {id target : ClassId} {shape : FrameShape}
    (h : (table.superChainFrom met fuel id).findSome? (fun above =>
      (table.declaredShape? above method).map (above, ·)) = some (target, shape)) :
    table.NearestDefinition method id target ∧ table.declaredShape? target method = some shape := by
  induction fuel generalizing met id with
  | zero => cases h
  | succ fuel ih =>
      rw [superChainFrom] at h
      split at h
      · cases h
      · rw [List.findSome?_cons] at h
        -- the class itself declares the method, or one above it does
        cases hown : table.declaredShape? id method with
        | some own =>
            simp only [hown, Option.map_some] at h
            cases h
            exact ⟨.here (exists_declaredShape?_iff.mp ⟨_, hown⟩), hown⟩
        | none =>
            simp only [hown, Option.map_none] at h
            split at h
            · rename_i next hnext
              -- a class that is passed over does not define the method
              have hnot : ¬ table.Defines method id := by
                rw [← exists_declaredShape?_iff, hown]
                simp
              exact (ih h).imp_left (.above hnot hnext)
            · cases h

/-- The look-up of a method finds its nearest definition, with the frame of that class. -/
theorem lookup?_eq_some_iff {method : MethodId} {id target : ClassId} {shape : FrameShape} :
    table.lookup? id method = some (target, shape) ↔
      table.NearestDefinition method id target ∧
        table.declaredShape? target method = some shape := by
  refine ⟨nearest_of_findSome?, ?_⟩
  rintro ⟨hnearest, hshape⟩
  obtain ⟨hreach, -⟩ := hnearest.reaches
  cases hfound : table.lookup? id method with
  | none =>
      have hnone := List.findSome?_eq_none_iff.mp hfound target (mem_superChain_iff.mpr hreach)
      rw [hshape] at hnone
      cases hnone
  | some found =>
      obtain ⟨other, otherShape⟩ := found
      obtain ⟨hother, hotherShape⟩ := nearest_of_findSome? hfound
      cases hnearest.unique hother
      cases hshape.symm.trans hotherShape
      rfl

end ClassTable

end DalvikHorn
