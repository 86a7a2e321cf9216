import DalvikHorn.Proofs.AllocationSites
import DalvikHorn.Proofs.CompiledMethods

/-!
# The slots of a layout

A layout is built by registering one site after the other.  A site that is new gets
the slots behind all others, and a registration under an identifier that is taken
changes nothing.  So the slots of the sites fill the local heap without gaps and
overlaps, and what is known of a site comes from its first registration:
`represents_ofRegistrations`.

## Strategy

* **One registration.**  `addSite_cases` lists the two outcomes of a registration;
  everything else is read off from it.
* **Runs.**  `Partitioned` is what a registration keeps.  The order of the sites and
  the registrations that they come from are followed along the whole list.
* **Fields.**  A field has one slot of the site (`fieldSlot?_eq_some_iff`).  Different
  sites have different slots, so a slot determines both its site and its field.
-/

namespace DalvikHorn

/-! ## Tables of fields -/

namespace FieldTable

theorem mem_insert_iff {field entry : FieldId × Bool} {table : FieldTable}
    (h : table.Ascending) :
    entry ∈ insert field table ↔ entry = field ∨ entry.1 ≠ field.1 ∧ entry ∈ table := by
  induction table with
  | nil =>
      have hnot : entry ∉ ([] : FieldTable) := List.not_mem_nil
      simp only [insert, List.mem_singleton, hnot, and_false, or_false]
  | cons first rest ih =>
      obtain ⟨hfirst, hrest⟩ := List.pairwise_cons.mp h
      unfold insert
      split
      · -- the field comes before all others, so none of them has its identifier
        rename_i hlt
        have hne : ∀ other ∈ first :: rest, other.1 ≠ field.1 := by
          intro other hother heq
          apply Int32.lt_irrefl (a := field.1)
          rcases List.mem_cons.mp hother with rfl | hmem
          · rwa [heq] at hlt
          · have hbehind := Int32.lt_trans hlt (hfirst other hmem)
            rwa [heq] at hbehind
        rw [List.mem_cons]
        exact or_congr_right ⟨fun hmem => ⟨hne entry hmem, hmem⟩, fun hmem => hmem.2⟩
      · rename_i hge
        split
        · -- the field replaces the one with its identifier
          rename_i heq
          have hne : ∀ other ∈ rest, other.1 ≠ field.1 := by
            intro other hother hsame
            apply Int32.lt_irrefl (a := field.1)
            calc field.1 = first.1 := heq
              _ < other.1 := hfirst other hother
              _ = field.1 := hsame
          rw [List.mem_cons, List.mem_cons]
          apply or_congr_right
          constructor
          · intro hmem
            exact ⟨hne entry hmem, .inr hmem⟩
          · rintro ⟨hother, rfl | hmem⟩
            · exact absurd heq.symm hother
            · exact hmem
        · -- the field belongs behind the first one, which stays where it is
          rename_i hne
          rw [List.mem_cons, List.mem_cons, ih hrest]
          constructor
          · rintro (rfl | rfl | ⟨hother, hmem⟩)
            · exact .inr ⟨fun heq => hne heq.symm, .inl rfl⟩
            · exact .inl rfl
            · exact .inr ⟨hother, .inr hmem⟩
          · rintro (rfl | ⟨hother, rfl | hmem⟩)
            · exact .inr (.inl rfl)
            · exact .inl rfl
            · exact .inr (.inr ⟨hother, hmem⟩)

theorem ofList_concat (fields : List (FieldId × Bool)) (field : FieldId × Bool) :
    ofList (fields ++ [field]) = insert field (ofList fields) := by
  rw [ofList, List.foldl_append]
  rfl

/-- A table has the last of the fields under each identifier. -/
theorem mem_ofList_iff {fields : List (FieldId × Bool)} {field : FieldId} {primitive : Bool} :
    (field, primitive) ∈ ofList fields ↔ fields.reverse.lookup field = some primitive := by
  induction fields using List.reverseRecOn with
  | nil => simp [ofList]
  | append_singleton fields last ih =>
      obtain ⟨name, kind⟩ := last
      rw [ofList_concat, mem_insert_iff (ascending_ofList fields), ih, List.reverse_append,
        List.reverse_singleton, List.singleton_append, List.lookup_cons]
      by_cases hname : field = name
      · simp [hname, eq_comm]
      · have hother : (field == name) = false := by simpa using hname
        simp [hother, hname]

end FieldTable

/-! ## Sites -/

namespace AllocationSite

variable {site : AllocationSite} {field other : FieldId} {k : Nat}

theorem mem_slots_iff : k ∈ site.slots ↔ site.offset ≤ k ∧ k ≤ site.headerSlot := by
  rw [slots, List.mem_range'_1, headerSlot]
  omega

/-- The slot of a field stands at its place among the fields. -/
theorem getElem?_of_fieldSlot? (h : site.fieldSlot? field = some k) :
    ∃ i primitive, site.fields[i]? = some (field, primitive) ∧ k = site.offset + i := by
  obtain ⟨i, hi, rfl⟩ := Option.map_eq_some_iff.mp h
  obtain ⟨hlt, hname, -⟩ := List.findIdx?_eq_some_iff_getElem.mp hi
  have hfield : site.fields[i].1 = field := by simpa using hname
  refine ⟨i, site.fields[i].2, ?_, rfl⟩
  rw [List.getElem?_eq_getElem hlt, ← hfield]

theorem fieldSlot?_bounds (h : site.fieldSlot? field = some k) :
    site.offset ≤ k ∧ k < site.headerSlot := by
  obtain ⟨i, primitive, hi, rfl⟩ := getElem?_of_fieldSlot? h
  obtain ⟨hlt, -⟩ := List.getElem?_eq_some_iff.mp hi
  rw [headerSlot, size]
  omega

/-- Two fields of a site have different slots. -/
theorem fieldSlot?_injective (h : site.fieldSlot? field = some k)
    (hother : site.fieldSlot? other = some k) : field = other := by
  obtain ⟨i, primitive, hi, hk⟩ := getElem?_of_fieldSlot? h
  obtain ⟨j, primitive', hj, hk'⟩ := getElem?_of_fieldSlot? hother
  have hij : i = j := by omega
  subst hij
  rw [hi] at hj
  cases hj
  rfl

theorem isSome_fieldSlot?_iff : (site.fieldSlot? field).isSome ↔ field ∈ site.fields.map (·.1) := by
  rw [fieldSlot?, Option.isSome_map, List.findIdx?_isSome, List.any_eq_true, List.mem_map]
  simp only [beq_iff_eq]

end AllocationSite

namespace HeapLayout

/-! ## One registration -/

variable {layout : HeapLayout}

/-- A registration changes nothing, or it adds a site behind all others. -/
theorem addSite_cases (layout : HeapLayout) (id : InstanceId) (typeName : String)
    (classId : ClassId) (fields : List (FieldId × Bool)) :
    id ∈ layout.sites.map (·.id) ∧ layout.addSite id typeName classId fields = layout ∨
      id ∉ layout.sites.map (·.id) ∧ (layout.addSite id typeName classId fields).sites =
        layout.sites ++ [⟨id, typeName, classId, layout.size, .ofList fields⟩] := by
  unfold addSite
  cases hfound : layout.site? id with
  | some site =>
      refine .inl ⟨?_, rfl⟩
      exact List.mem_map.mpr ⟨site, List.mem_of_find?_eq_some hfound, id_of_site? hfound⟩
  | none =>
      refine .inr ⟨?_, rfl⟩
      intro hmem
      obtain ⟨site, hsite, hid⟩ := List.mem_map.mp hmem
      have hother := List.find?_eq_none.mp hfound site hsite
      simp [hid] at hother

/-- The sites of a layout have their slots one after the other, and their fields ascend. -/
structure Partitioned (layout : HeapLayout) : Prop where
  slots_eq : layout.sites.flatMap (·.slots) = List.range layout.size
  nodup_ids : (layout.sites.map (·.id)).Nodup
  ascending : ∀ site ∈ layout.sites, site.fields.Ascending

theorem Partitioned.addSite (h : layout.Partitioned) (id : InstanceId) (typeName : String)
    (classId : ClassId) (fields : List (FieldId × Bool)) :
    (layout.addSite id typeName classId fields).Partitioned := by
  -- a site that is there already changes nothing
  rcases layout.addSite_cases id typeName classId fields with ⟨-, hsame⟩ | ⟨hfresh, hsites⟩
  · rw [hsame]
    exact h
  · generalize hnew : AllocationSite.mk id typeName classId layout.size (.ofList fields) = new
      at hsites
    have hid : new.id = id := by rw [← hnew]
    have hoffset : new.offset = layout.size := by rw [← hnew]
    have hfields : new.fields = .ofList fields := by rw [← hnew]
    have hsize : (layout.addSite id typeName classId fields).size = layout.size + new.size + 1 := by
      have happend := size_append layout.sites new
      rw [← hsites] at happend
      exact happend
    constructor
    -- the new slots follow those of the layout
    case slots_eq =>
      calc (layout.addSite id typeName classId fields).sites.flatMap (·.slots)
          = List.range layout.size ++ List.range' layout.size (new.size + 1) := by
            rw [hsites, List.flatMap_append, h.slots_eq, List.flatMap_singleton,
              AllocationSite.slots, hoffset]
        _ = List.range' 0 (layout.size + (new.size + 1)) := by
            rw [List.range_eq_range', ← List.range'_append_1 (s := 0), Nat.zero_add]
        _ = List.range (layout.addSite id typeName classId fields).size := by
            rw [← List.range_eq_range', hsize, Nat.add_assoc]
    case nodup_ids =>
      rw [hsites, List.map_append, List.map_singleton, hid, List.nodup_append]
      refine ⟨h.nodup_ids, List.nodup_singleton _, ?_⟩
      intro first hfirst second hsecond heq
      rw [List.mem_singleton.mp hsecond] at heq
      exact hfresh (heq ▸ hfirst)
    case ascending =>
      intro site hsite
      rw [hsites] at hsite
      rcases List.mem_append.mp hsite with hold | hlast
      · exact h.ascending site hold
      · rw [List.mem_singleton.mp hlast, hfields]
        exact FieldTable.ascending_ofList fields

/-- All layouts that can be built are partitioned. -/
theorem Registered.partitioned (h : layout.Registered) : layout.Partitioned := by
  induction h with
  | empty => exact ⟨rfl, List.nodup_nil, fun site hsite => absurd hsite List.not_mem_nil⟩
  | addSite _ id typeName classId fields ih => exact ih.addSite id typeName classId fields

/-! ## Sites of a partitioned layout -/

/-- The identifier of a site is known to the layout. -/
theorem Partitioned.site?_eq_some_iff (h : layout.Partitioned) {id : InstanceId}
    {site : AllocationSite} :
    layout.site? id = some site ↔ site ∈ layout.sites ∧ site.id = id := by
  constructor
  · intro hfound
    exact ⟨List.mem_of_find?_eq_some hfound, id_of_site? hfound⟩
  · rintro ⟨hsite, rfl⟩
    cases hfound : layout.site? site.id with
    | none =>
        have hother := List.find?_eq_none.mp hfound site hsite
        simp at hother
    | some found =>
        have hmem := List.mem_of_find?_eq_some hfound
        rw [List.inj_on_of_nodup_map h.nodup_ids hmem hsite (id_of_site? hfound)]

/-- A slot belongs to one site. -/
theorem Partitioned.eq_of_mem_slots (h : layout.Partitioned) {first second : AllocationSite}
    (hfirst : first ∈ layout.sites) (hsecond : second ∈ layout.sites) {k : Nat}
    (hk : k ∈ first.slots) (hk' : k ∈ second.slots) : first = second := by
  have hnodup : (layout.sites.flatMap (·.slots)).Nodup := by
    rw [h.slots_eq]
    exact List.nodup_range
  obtain ⟨-, hdisjoint⟩ := List.nodup_flatMap.mp hnodup
  have hunique : layout.sites.Pairwise fun a b => k ∈ a.slots → k ∈ b.slots → a = b :=
    hdisjoint.imp fun hab ha hb => absurd hb (hab ha)
  have : Std.Symm fun a b : AllocationSite => k ∈ a.slots → k ∈ b.slots → a = b :=
    ⟨fun _ _ hab hb ha => (hab ha hb).symm⟩
  exact hunique.forall_of_forall (fun _ _ _ _ => rfl) hfirst hsecond hk hk'

/-! ## Lists of registrations -/

/-- What a site is registered with. -/
structure Registration where
  id : InstanceId
  typeName : String
  classId : ClassId
  fields : List (FieldId × Bool)
  deriving DecidableEq, Repr

/-- The layout after some more registrations. -/
def registerAll (layout : HeapLayout) (registrations : List Registration) : HeapLayout :=
  registrations.foldl
    (fun layout entry => layout.addSite entry.id entry.typeName entry.classId entry.fields) layout

/-- The layout of some registrations. -/
def ofRegistrations (registrations : List Registration) : HeapLayout :=
  empty.registerAll registrations

theorem ofRegistrations_concat (registrations : List Registration) (last : Registration) :
    ofRegistrations (registrations ++ [last]) =
      (ofRegistrations registrations).addSite last.id last.typeName last.classId last.fields := by
  rw [ofRegistrations, registerAll, List.foldl_append]
  rfl

theorem registered_ofRegistrations (registrations : List Registration) :
    (ofRegistrations registrations).Registered :=
  List.foldlRecOn registrations _ .empty fun _ hlayout _ _ => hlayout.addSite _ _ _ _

/-- Later registrations keep every site. -/
theorem site?_registerAll {id : InstanceId} {site : AllocationSite}
    (h : layout.site? id = some site) (more : List Registration) :
    (layout.registerAll more).site? id = some site :=
  List.foldlRecOn (motive := fun (later : HeapLayout) => later.site? id = some site) more _ h
    fun _ hlater entry _ => site?_addSite_of_some hlater entry.typeName entry.classId entry.fields

/-- The sites stand in the order in which their identifiers have first been registered. -/
theorem ids_ofRegistrations (registrations : List Registration) :
    (ofRegistrations registrations).sites.map (·.id) =
      (registrations.map (·.id)).eraseDups := by
  induction registrations using List.reverseRecOn with
  | nil => rfl
  | append_singleton registrations last ih =>
      rw [ofRegistrations_concat, List.map_append, List.eraseDups_append, ← ih, List.map_singleton]
      have hmem : last.id ∈ (ofRegistrations registrations).sites.map (·.id) ↔
          last.id ∈ registrations.map (·.id) := by
        rw [ih, List.mem_eraseDups]
      generalize registrations.map (·.id) = ids at hmem
      rcases (ofRegistrations registrations).addSite_cases last.id last.typeName last.classId
        last.fields with ⟨hold, hsame⟩ | ⟨hfresh, hsites⟩
      · have htaken : last.id ∈ ids := hmem.mp hold
        rw [hsame]
        simp [List.removeAll, htaken]
      · have hnew : last.id ∉ ids := fun hin => hfresh (hmem.mpr hin)
        rw [hsites, List.map_append]
        simp [List.removeAll, hnew, List.eraseDups_cons]

/-- A site has the type, the class and the fields of the first registration of its identifier. -/
theorem exists_registration {registrations : List Registration} {site : AllocationSite}
    (hsite : site ∈ (ofRegistrations registrations).sites) :
    ∃ first, registrations.find? (·.id == site.id) = some first ∧ site.typeName = first.typeName ∧
      site.classId = first.classId ∧ site.fields = .ofList first.fields := by
  induction registrations using List.reverseRecOn with
  | nil => exact absurd hsite List.not_mem_nil
  | append_singleton registrations last ih =>
      rw [ofRegistrations_concat] at hsite
      rw [List.find?_append]
      rcases (ofRegistrations registrations).addSite_cases last.id last.typeName last.classId
        last.fields with ⟨-, hsame⟩ | ⟨hfresh, hsites⟩
      · rw [hsame] at hsite
        obtain ⟨first, hfirst, hdata⟩ := ih hsite
        exact ⟨first, by rw [hfirst, Option.some_or], hdata⟩
      · rw [hsites] at hsite
        rcases List.mem_append.mp hsite with hold | hlast
        · obtain ⟨first, hfirst, hdata⟩ := ih hold
          exact ⟨first, by rw [hfirst, Option.some_or], hdata⟩
        · -- a new site has no earlier registration
          rw [List.mem_singleton.mp hlast]
          refine ⟨last, ?_, rfl, rfl, rfl⟩
          have hnone : registrations.find? (·.id == last.id) = none := by
            rw [List.find?_eq_none]
            intro entry hentry hid
            apply hfresh
            rw [ids_ofRegistrations, List.mem_eraseDups]
            exact List.mem_map.mpr ⟨entry, hentry, by simpa using hid⟩
          rw [hnone, Option.none_or, List.find?_singleton]
          simp

/-! ## What a layout holds -/

/-- A layout holds what has been registered. -/
structure Represents (layout : HeapLayout) (registrations : List Registration) : Prop where
  /-- The sites stand in the order of the first registrations of their identifiers. -/
  ids_eq : layout.sites.map (·.id) = (registrations.map (·.id)).eraseDups
  nodup_ids : (layout.sites.map (·.id)).Nodup
  /-- The slots of the sites are consecutive: those of the fields, and then the header. -/
  slots_eq : layout.sites.flatMap (·.slots) = List.range layout.size
  mem_slots_iff : ∀ site ∈ layout.sites, ∀ k,
    k ∈ site.slots ↔ site.offset ≤ k ∧ k ≤ site.headerSlot
  site?_iff : ∀ id site, layout.site? id = some site ↔ site ∈ layout.sites ∧ site.id = id
  site?_isSome_iff : ∀ id, (layout.site? id).isSome ↔ id ∈ registrations.map (·.id)
  /-- A site is what was registered first, and of two fields with one identifier the later one
  counts. -/
  first : ∀ id site, layout.site? id = some site →
    ∃ entry, registrations.find? (·.id == id) = some entry ∧ site.typeName = entry.typeName ∧
      site.classId = entry.classId ∧ ∀ field primitive, (field, primitive) ∈ site.fields ↔
        entry.fields.reverse.lookup field = some primitive
  kept : ∀ id site, layout.site? id = some site →
    ∀ more, (layout.registerAll more).site? id = some site
  ascending : ∀ site ∈ layout.sites, site.fields.Pairwise fun a b => a.1 < b.1
  declared : ∀ site ∈ layout.sites, ∀ field,
    (site.fieldSlot? field).isSome ↔ field ∈ site.fields.map (·.1)
  bounds : ∀ site ∈ layout.sites, ∀ field k, site.fieldSlot? field = some k →
    site.offset ≤ k ∧ k < site.headerSlot
  injective : ∀ site ∈ layout.sites, ∀ other ∈ layout.sites, ∀ field field' k,
    site.fieldSlot? field = some k → other.fieldSlot? field' = some k →
      site = other ∧ field = field'
  /-- The sites with a field are those that declare it, in their order and with its slot. -/
  sitesWithField_eq : ∀ field, (layout.sitesWithField field).map (·.1) =
    layout.sites.filter fun site => field ∈ site.fields.map (·.1)
  slotOf : ∀ field, ∀ entry ∈ layout.sitesWithField field,
    entry.1.fieldSlot? field = some entry.2

theorem map_fst_sitesWithField (layout : HeapLayout) (field : FieldId) :
    (layout.sitesWithField field).map (·.1) =
      layout.sites.filter fun site => field ∈ site.fields.map (·.1) := by
  rw [sitesWithField, List.map_filterMap, ← List.filterMap_eq_filter]
  apply List.filterMap_congr
  intro site _
  have hdeclared : (site.fieldSlot? field).isSome ↔ field ∈ site.fields.map (·.1) :=
    AllocationSite.isSome_fieldSlot?_iff
  cases hslot : site.fieldSlot? field with
  | none =>
      rw [hslot] at hdeclared
      have hnot : field ∉ site.fields.map (·.1) := fun hmem => by simpa using hdeclared.mpr hmem
      simp [Option.guard, hnot]
  | some k =>
      rw [hslot] at hdeclared
      have hmem : field ∈ site.fields.map (·.1) := hdeclared.mp rfl
      simp [Option.guard, hmem]

theorem fieldSlot?_of_mem_sitesWithField {field : FieldId} {entry : AllocationSite × Nat}
    (h : entry ∈ layout.sitesWithField field) : entry.1.fieldSlot? field = some entry.2 := by
  obtain ⟨site, -, hslot⟩ := List.mem_filterMap.mp h
  obtain ⟨k, hk, rfl⟩ := Option.map_eq_some_iff.mp hslot
  exact hk

/-- After any registrations, repeated ones among them, the sites fill the slots of the layout one
after the other, and each of them is and stays what was registered first under its identifier. -/
theorem represents_ofRegistrations (registrations : List Registration) :
    (ofRegistrations registrations).Represents registrations := by
  have hpartitioned := (registered_ofRegistrations registrations).partitioned
  have hids := ids_ofRegistrations registrations
  constructor
  case ids_eq => exact hids
  case nodup_ids => exact hpartitioned.nodup_ids
  case slots_eq => exact hpartitioned.slots_eq
  case mem_slots_iff => exact fun site _ k => AllocationSite.mem_slots_iff
  case site?_iff => exact fun id site => hpartitioned.site?_eq_some_iff
  case site?_isSome_iff =>
    intro id
    rw [← List.mem_eraseDups, ← hids, List.mem_map, Option.isSome_iff_exists]
    simp only [hpartitioned.site?_eq_some_iff]
  case first =>
    intro id site hfound
    obtain ⟨hsite, rfl⟩ := hpartitioned.site?_eq_some_iff.mp hfound
    obtain ⟨entry, hentry, htype, hclass, hfields⟩ := exists_registration hsite
    refine ⟨entry, hentry, htype, hclass, fun field primitive => ?_⟩
    rw [hfields]
    exact FieldTable.mem_ofList_iff
  case kept => exact fun id site hfound more => site?_registerAll hfound more
  case ascending => exact hpartitioned.ascending
  case declared => exact fun site _ field => AllocationSite.isSome_fieldSlot?_iff
  case bounds => exact fun site _ field k hslot => AllocationSite.fieldSlot?_bounds hslot
  case injective =>
    intro site hsite other hother field field' k hslot hslot'
    obtain ⟨hlow, hhigh⟩ := AllocationSite.fieldSlot?_bounds hslot
    obtain ⟨hlow', hhigh'⟩ := AllocationSite.fieldSlot?_bounds hslot'
    have hsame : site = other := hpartitioned.eq_of_mem_slots hsite hother
      (AllocationSite.mem_slots_iff.mpr ⟨hlow, by omega⟩)
      (AllocationSite.mem_slots_iff.mpr ⟨hlow', by omega⟩)
    subst hsame
    exact ⟨rfl, AllocationSite.fieldSlot?_injective hslot hslot'⟩
  case sitesWithField_eq => exact map_fst_sitesWithField _
  case slotOf => exact fun field entry hentry => fieldSlot?_of_mem_sitesWithField hentry

/-- A site without fields, and an identifier that is registered twice. -/
def sampleRegistrations : List Registration :=
  [⟨7, "La;", 1, [(30, true), (10, false), (30, false)]⟩, ⟨9, "Lb;", 2, []⟩,
    ⟨7, "Lc;", 3, [(5, true)]⟩, ⟨-4, "Ld;", 4, [(10, true)]⟩]

theorem represents_ofRegistrations_sample :
    (ofRegistrations sampleRegistrations).Represents sampleRegistrations ∧
      (ofRegistrations sampleRegistrations).size = 6 ∧
      (ofRegistrations sampleRegistrations).site? 7 =
        some ⟨7, "La;", 1, 0, [(10, false), (30, false)]⟩ ∧
      ((ofRegistrations sampleRegistrations).registerAll [⟨9, "Le;", 5, [(3, true)]⟩]).site? 9 =
        some ⟨9, "Lb;", 2, 3, []⟩ ∧
      ((ofRegistrations sampleRegistrations).sitesWithField 10).map (·.2) = [0, 4] := by
  have h := represents_ofRegistrations sampleRegistrations
  exact ⟨h, by decide, by decide, h.kept 9 _ (by decide) _, by decide⟩

end HeapLayout

end DalvikHorn
