import Oddzilla.Lib.Worklist
import Oddzilla.Fonbet.Mapper

/-!
# The walk over sub-events

The queue of a match ends exactly when no named sub-event below it is its own
descendant, and with unique ids that is always so.  Then no event gives its factors
twice, nor to two matches.
-/

namespace Oddzilla.Fonbet

open Worklist

variable (lower : Char → Char) (resp : ListResponse) (idx : Index) (opt : Options)

/-! ## Who contributes -/

/-- The sub-events queued behind an event: one without a name is passed over. -/
def subEvents (e : Event) : List Event := if subEventName e = [] then [] else children resp e.id

/-- The same for what is queued. -/
def Node.kids (n : Node) : List Node :=
  let (base, label) := subEventSpecs lower n.ev n.parentVariant n.parentLabel
  if label = [] then [] else (children resp n.ev.id).map fun c => ⟨c, specOf base variantKey, label⟩

/-- What is done with a node taken off the queue. -/
def Node.addTo (m : Match) (n : Node) (markets : List Market) : List Market :=
  let (base, label) := subEventSpecs lower n.ev n.parentVariant n.parentLabel
  if label = [] then markets
  else
    addFactors idx (eventFactors resp m n.ev.id (m.suspendAll || blockedAll resp n.ev.id) base label)
      markets

/-- The nodes a match takes off its queue. -/
def matchNodes (fuel : Nat) (id : Int) : Option (List Node) :=
  if opt.includeSubEvents then
    drain (Node.kids lower resp) fuel ((children resp id).map fun c => ⟨c, [], []⟩)
  else some []

/-- The events whose factors a match gets: its own, and those of its named sub-events. -/
def contributors (fuel : Nat) (e : Event) : Option (List Event) :=
  (matchNodes lower resp opt fuel e.id).map fun ns =>
    e :: (ns.map Node.ev).filter fun c => subEventName c ≠ []

/-- The events that become matches. -/
def matchEvents : List Event := resp.events.filter fun e => (matchOf resp opt e).isSome

/-- All contributions, match by match. -/
def contributions (fuel : Nat) : Option (List Event) :=
  ((matchEvents resp opt).mapM (contributors lower resp opt fuel)).map List.flatten

def UniqueIds : Prop := (resp.events.map Event.id).Nodup

/-- No sub-event below a match is, through named ones, its own descendant. -/
def LoopFree : Prop :=
  opt.includeSubEvents = true → ∀ e ∈ matchEvents resp opt, ∀ c ∈ children resp e.id,
    ∀ d, Reaches (subEvents resp) c d → ¬ Looped (subEvents resp) d

variable {lower resp idx opt} {fuel : Nat} {m : Match} {e : Event}

theorem label_eq_nil {c : Event} {parentVariant parentLabel : List Char} :
    (subEventSpecs lower c parentVariant parentLabel).2 = [] ↔ subEventName c = [] := by
  unfold subEventSpecs
  dsimp only
  split
  · next h => exact ⟨fun _ => h, fun _ => rfl⟩
  · next h =>
    have hlabel : nestedLabel lower parentLabel (subEventName c) ≠ [] := by
      unfold nestedLabel
      split
      · simp
      · exact h
    split
    · rfl
    · exact ⟨fun hnil => absurd hnil hlabel, fun hnil => absurd hnil h⟩

theorem Node.kids_eq (n : Node) : n.kids lower resp =
    if (subEventSpecs lower n.ev n.parentVariant n.parentLabel).2 = [] then []
    else (children resp n.ev.id).map fun c =>
      ⟨c, specOf (subEventSpecs lower n.ev n.parentVariant n.parentLabel).1 variantKey,
        (subEventSpecs lower n.ev n.parentVariant n.parentLabel).2⟩ := rfl

theorem Node.addTo_eq (n : Node) (markets : List Market) : n.addTo lower resp idx m markets =
    if (subEventSpecs lower n.ev n.parentVariant n.parentLabel).2 = [] then markets
    else
      addFactors idx (eventFactors resp m n.ev.id (m.suspendAll || blockedAll resp n.ev.id)
        (subEventSpecs lower n.ev n.parentVariant n.parentLabel).1
        (subEventSpecs lower n.ev n.parentVariant n.parentLabel).2) markets := rfl

/-- The walk adds the nodes in the order of the queue. -/
theorem walk_eq (fuel : Nat) (queue : List Node) (markets : List Market) :
    walk lower resp idx m fuel queue markets =
      (drain (Node.kids lower resp) fuel queue).map
        (List.foldl (fun mks n => n.addTo lower resp idx m mks) markets) := by
  induction fuel generalizing queue markets with
  | zero => cases queue <;> rfl
  | succ fuel ih =>
    cases queue with
    | nil => rfl
    | cons n queue =>
      rw [walk, drain, Option.map_map]
      dsimp only
      split
      · next hlabel =>
        rw [ih, n.kids_eq, if_pos hlabel, List.append_nil]
        congr 1
        funext ns
        rw [Function.comp_apply, List.foldl_cons, n.addTo_eq, if_pos hlabel]
      · next hlabel =>
        rw [ih, n.kids_eq, if_neg hlabel]
        congr 1
        funext ns
        rw [Function.comp_apply, List.foldl_cons, n.addTo_eq, if_neg hlabel]

/-- The markets of a match are made of what its contributors add. -/
theorem matchMarkets_eq (fuel : Nat) (m : Match) : matchMarkets lower resp idx opt fuel m =
    (matchNodes lower resp opt fuel m.eventId).map
      (List.foldl (fun mks n => n.addTo lower resp idx m mks)
      (addFactors idx (eventFactors resp m m.eventId m.suspendAll [] []) [])) := by
  unfold matchMarkets matchNodes
  dsimp only
  split
  · exact walk_eq _ _ _
  · rfl

theorem map_ev_kids (n : Node) : (n.kids lower resp).map Node.ev = subEvents resp n.ev := by
  rw [n.kids_eq]
  unfold subEvents
  by_cases h : subEventName n.ev = []
  · rw [if_pos (label_eq_nil.mpr h), if_pos h]
    rfl
  · rw [if_neg (mt label_eq_nil.mp h), if_neg h, List.map_map]
    exact List.map_id _

/-- The events of the nodes are those of a queue of events. -/
theorem map_ev_matchNodes (h : opt.includeSubEvents = true) (fuel : Nat) (id : Int) :
    (matchNodes lower resp opt fuel id).map (List.map Node.ev) =
      drain (subEvents resp) fuel (children resp id) := by
  unfold matchNodes
  rw [if_pos h, drain_map map_ev_kids, List.map_map]
  congr 1
  exact List.map_id _

/-! ## Ends -/

theorem mem_children {id : Int} {c : Event} :
    c ∈ children resp id ↔ c ∈ resp.events ∧ 1 < c.level ∧ c.parentId ≠ 0 ∧ c.parentId = id := by
  unfold children
  simp [and_assoc]

theorem mem_subEvents {c : Event} (h : c ∈ subEvents resp e) : c ∈ children resp e.id := by
  unfold subEvents at h
  split at h
  · cases h
  · exact h

theorem matchOf_spec (h : matchOf resp opt e = some m) : e.level = 1 ∧ m.eventId = e.id := by
  unfold matchOf at h
  split at h
  · cases h
  · next hlevel =>
    split at h
    · cases h
    · split at h
      · cases h
      · split at h
        · cases h
        · split at h
          · cases h
          · split at h
            · cases h
            · split at h
              · cases h
              · cases h
                exact ⟨not_not.mp hlevel, rfl⟩

theorem isSome_mapM_iff {α β : Type} {f : α → Option β} {l : List α} :
    (l.mapM f).isSome ↔ ∀ a ∈ l, (f a).isSome := by
  induction l with
  | nil => simp
  | cons a l ih =>
    rw [List.mapM_cons, List.forall_mem_cons, ← ih]
    cases f a with
    | none => simp
    | some b => cases l.mapM f <;> simp

theorem build_isSome_iff : (Build lower resp idx opt fuel).isSome ↔
    ∀ e ∈ matchEvents resp opt, (matchNodes lower resp opt fuel e.id).isSome := by
  have hbuild : ∀ m, (buildMatch lower resp idx opt fuel m).isSome ↔
      (matchNodes lower resp opt fuel m.eventId).isSome := by
    intro m
    unfold buildMatch
    rw [matchMarkets_eq]
    cases matchNodes lower resp opt fuel m.eventId <;> rfl
  have hmap : (Build lower resp idx opt fuel).isSome ↔
      ((resp.events.filterMap (matchOf resp opt)).mapM (buildMatch lower resp idx opt fuel)).isSome := by
    unfold Build
    split
    · next hnone =>
      rw [hnone]
      exact iff_of_false (by simp) (by simp)
    · next built hbuilt =>
      rw [hbuilt]
      exact iff_of_true rfl rfl
  rw [hmap, isSome_mapM_iff]
  unfold matchEvents
  constructor
  · intro h e he
    obtain ⟨hmem, hsome⟩ := List.mem_filter.mp he
    obtain ⟨m, hm⟩ := Option.isSome_iff_exists.mp hsome
    rw [← (matchOf_spec hm).2]
    exact (hbuild m).mp (h m (List.mem_filterMap.mpr ⟨e, hmem, hm⟩))
  · intro h m hm
    obtain ⟨e, hmem, hm⟩ := List.mem_filterMap.mp hm
    rw [hbuild, (matchOf_spec hm).2]
    exact h e (List.mem_filter.mpr ⟨hmem, by rw [hm]; rfl⟩)

theorem matchNodes_mono {fuel' : Nat} {id : Int} (hle : fuel ≤ fuel')
    (h : (matchNodes lower resp opt fuel id).isSome) :
    (matchNodes lower resp opt fuel' id).isSome := by
  unfold matchNodes at h ⊢
  split at h
  · next hsub =>
    obtain ⟨ns, hns⟩ := Option.isSome_iff_exists.mp h
    rw [if_pos hsub, drain_mono hle hns]
    rfl
  · next hsub =>
    rw [if_neg hsub]
    rfl

/-- With enough fuel for each match there is enough for all. -/
theorem build_ends_iff_nodes : (∃ fuel, (Build lower resp idx opt fuel).isSome) ↔
    ∀ e ∈ matchEvents resp opt, ∃ fuel, (matchNodes lower resp opt fuel e.id).isSome := by
  simp only [build_isSome_iff]
  constructor
  · exact fun ⟨fuel, h⟩ e he => ⟨fuel, h e he⟩
  · generalize matchEvents resp opt = es
    intro h
    induction es with
    | nil => exact ⟨0, fun e he => absurd he List.not_mem_nil⟩
    | cons e es ih =>
      obtain ⟨fuel, hfuel⟩ := h e (List.mem_cons_self ..)
      obtain ⟨fuel', hfuel'⟩ := ih fun e' he' => h e' (List.mem_cons_of_mem _ he')
      refine ⟨max fuel fuel', fun e' he' => ?_⟩
      rcases List.mem_cons.mp he' with rfl | he'
      · exact matchNodes_mono (le_max_left ..) hfuel
      · exact matchNodes_mono (le_max_right ..) (hfuel' e' he')

theorem nodes_end_iff {id : Int} : (∃ fuel, (matchNodes lower resp opt fuel id).isSome) ↔
    (opt.includeSubEvents = true → ∀ c ∈ children resp id, ∀ d, Reaches (subEvents resp) c d →
      ¬ Looped (subEvents resp) d) := by
  by_cases hsub : opt.includeSubEvents = true
  · have hmap : ∀ fuel, (matchNodes lower resp opt fuel id).isSome =
        (drain (subEvents resp) fuel (children resp id)).isSome := by
      intro fuel
      rw [← map_ev_matchNodes hsub, Option.isSome_map]
    have hall : ∀ a, ∀ b ∈ subEvents resp a, b ∈ resp.events := fun a b hb =>
      (mem_children.mp (mem_subEvents hb)).1
    simp only [hmap, drain_ends_iff, acc_iff hall]
    exact ⟨fun h _ => h, fun h => h hsub⟩
  · refine ⟨fun _ h => absurd h hsub, fun _ => ⟨0, ?_⟩⟩
    unfold matchNodes
    rw [if_neg hsub]
    rfl

theorem build_ends_iff_loopFree :
    (∃ fuel, (Build lower resp idx opt fuel).isSome) ↔ LoopFree resp opt := by
  rw [build_ends_iff_nodes]
  simp only [nodes_end_iff]
  exact ⟨fun h hsub e he => h e he hsub, fun h e he hsub => h hsub e he⟩

/-! ## Unique ids -/

def IsRoot (resp : ListResponse) (id : Int) : Prop := ∃ e ∈ resp.events, e.level = 1 ∧ e.id = id

theorem eq_of_id (hunique : UniqueIds resp) {c d : Event} (hc : c ∈ resp.events)
    (hd : d ∈ resp.events) (h : c.id = d.id) : c = d :=
  List.inj_on_of_nodup_map hunique hc hd h

theorem not_isRoot_of_mem_children (hunique : UniqueIds resp) {id : Int} {c : Event}
    (hc : c ∈ children resp id) : ¬ IsRoot resp c.id := by
  rintro ⟨e, he, hlevel, hid⟩
  obtain ⟨hmem, hchild, -⟩ := mem_children.mp hc
  rw [eq_of_id hunique he hmem hid] at hlevel
  omega

theorem nodup_children (hunique : UniqueIds resp) (id : Int) : (children resp id).Nodup :=
  hunique.of_map.filter _

theorem tree_subEvents (hunique : UniqueIds resp) :
    Tree (subEvents resp) resp.events Event.id Event.parentId (IsRoot resp) where
  unique _ hc _ hd h := eq_of_id hunique hc hd h
  below e c hc := by
    have hchild := mem_subEvents hc
    obtain ⟨hmem, -, -, hparent⟩ := mem_children.mp hchild
    exact ⟨hmem, hparent, not_isRoot_of_mem_children hunique hchild⟩
  nodup e := by
    unfold subEvents
    split
    · exact List.nodup_nil
    · exact nodup_children hunique e.id

theorem mem_matchEvents (h : e ∈ matchEvents resp opt) : e ∈ resp.events ∧ e.level = 1 := by
  obtain ⟨hmem, hsome⟩ := List.mem_filter.mp h
  obtain ⟨m, hm⟩ := Option.isSome_iff_exists.mp hsome
  exact ⟨hmem, (matchOf_spec hm).1⟩

theorem first_children (hunique : UniqueIds resp) (he : e ∈ matchEvents resp opt) {c : Event}
    (hc : c ∈ children resp e.id) :
    First resp.events Event.id Event.parentId (IsRoot resp) e.id c := by
  obtain ⟨hmem, -, -, hparent⟩ := mem_children.mp hc
  obtain ⟨heMem, hlevel⟩ := mem_matchEvents he
  exact ⟨hmem, hparent, ⟨e, heMem, hlevel, rfl⟩, not_isRoot_of_mem_children hunique hc⟩

theorem loopFree_of_unique (hunique : UniqueIds resp) : LoopFree resp opt := by
  intro _ e he c hc d hreach
  exact (first_children hunique he hc).not_looped (tree_subEvents hunique) hreach

/-- A contributor is the match's event, or it is reached from one of its sub-events. -/
theorem mem_contributors {evs : List Event} (h : contributors lower resp opt fuel e = some evs)
    {d : Event} (hd : d ∈ evs) :
    d = e ∨ ∃ c ∈ children resp e.id, Reaches (subEvents resp) c d := by
  obtain ⟨ns, hns, rfl⟩ := Option.map_eq_some_iff.mp h
  rcases List.mem_cons.mp hd with rfl | hd
  · exact .inl rfl
  · by_cases hsub : opt.includeSubEvents = true
    · have hdrain : (matchNodes lower resp opt fuel e.id).map (List.map Node.ev) = _ :=
        map_ev_matchNodes hsub fuel e.id
      rw [hns] at hdrain
      exact .inr (reaches_of_mem_drain hdrain.symm (List.mem_filter.mp hd).1)
    · unfold matchNodes at hns
      rw [if_neg hsub] at hns
      cases hns
      cases hd

theorem contributors_nodup (hunique : UniqueIds resp) (he : e ∈ matchEvents resp opt)
    {evs : List Event} (h : contributors lower resp opt fuel e = some evs) : evs.Nodup := by
  obtain ⟨ns, hns, rfl⟩ := Option.map_eq_some_iff.mp h
  by_cases hsub : opt.includeSubEvents = true
  · have hdrain : (matchNodes lower resp opt fuel e.id).map (List.map Node.ev) = _ :=
      map_ev_matchNodes hsub fuel e.id
    rw [hns] at hdrain
    have hfirst : ∀ c ∈ children resp e.id, _ := fun c hc => first_children hunique he hc
    have hroot : IsRoot resp e.id := ⟨e, (mem_matchEvents he).1, (mem_matchEvents he).2, rfl⟩
    have hstart := Taken.start hroot hfirst (nodup_children hunique e.id)
    obtain ⟨hnodup, hkeys⟩ := drain_nodup (tree_subEvents hunique) hstart hdrain.symm
    refine List.nodup_cons.mpr ⟨fun hmem => ?_, hnodup.filter _⟩
    exact hkeys e (List.mem_filter.mp hmem).1 (List.mem_singleton_self _)
  · unfold matchNodes at hns
    rw [if_neg hsub] at hns
    cases hns
    exact List.nodup_singleton e

/-- Two matches share no contributor. -/
theorem contributors_disjoint (hunique : UniqueIds resp) {e' : Event}
    (he : e ∈ matchEvents resp opt)
    (he' : e' ∈ matchEvents resp opt) (hne : e ≠ e') {evs evs' : List Event}
    (h : contributors lower resp opt fuel e = some evs)
    (h' : contributors lower resp opt fuel e' = some evs') : evs.Disjoint evs' := by
  intro d hd hd'
  have htree := tree_subEvents hunique
  have hroot : ∀ e₁ ∈ matchEvents resp opt, IsRoot resp e₁.id := fun e₁ h₁ =>
    ⟨e₁, (mem_matchEvents h₁).1, (mem_matchEvents h₁).2, rfl⟩
  rcases mem_contributors h hd with rfl | ⟨c, hc, hreach⟩
  · rcases mem_contributors h' hd' with rfl | ⟨c', hc', hreach'⟩
    · exact hne rfl
    · exact ((first_children hunique he' hc').reaches htree hreach').2 (hroot d he)
  · rcases mem_contributors h' hd' with rfl | ⟨c', hc', hreach'⟩
    · exact ((first_children hunique he hc).reaches htree hreach).2 (hroot d he')
    · have hid := (first_children hunique he hc).root_eq htree (first_children hunique he' hc')
        hreach hreach'
      exact hne (eq_of_id hunique (mem_matchEvents he).1 (mem_matchEvents he').1 hid)

theorem nodup_flatten_mapM {α β : Type} {f : α → Option (List β)} {l : List α} (hl : l.Nodup)
    (hnodup : ∀ a ∈ l, ∀ bs, f a = some bs → bs.Nodup)
    (hdisjoint : ∀ a ∈ l, ∀ a' ∈ l, a ≠ a' → ∀ bs bs', f a = some bs → f a' = some bs' →
      bs.Disjoint bs')
    {lists : List (List β)} (h : l.mapM f = some lists) :
    lists.flatten.Nodup ∧ ∀ b ∈ lists.flatten, ∃ a ∈ l, ∃ bs, f a = some bs ∧ b ∈ bs := by
  induction l generalizing lists with
  | nil =>
    rw [List.mapM_nil] at h
    cases h
    exact ⟨List.nodup_nil, fun b hb => absurd hb List.not_mem_nil⟩
  | cons a l ih =>
    rw [List.mapM_cons] at h
    obtain ⟨bs, hbs, h⟩ := Option.bind_eq_some_iff.mp h
    obtain ⟨lists', hlists', h⟩ := Option.bind_eq_some_iff.mp h
    cases h
    obtain ⟨ha, hl⟩ := List.nodup_cons.mp hl
    obtain ⟨htail, hmem⟩ := ih hl (fun a' ha' => hnodup a' (List.mem_cons_of_mem _ ha'))
      (fun a₁ h₁ a₂ h₂ => hdisjoint a₁ (List.mem_cons_of_mem _ h₁) a₂ (List.mem_cons_of_mem _ h₂))
      hlists'
    rw [List.flatten_cons]
    constructor
    · refine (hnodup a (List.mem_cons_self ..) bs hbs).append htail fun b hb hb' => ?_
      obtain ⟨a', ha', bs', hbs', hb'⟩ := hmem b hb'
      have hne : a ≠ a' := fun heq => ha (heq ▸ ha')
      exact hdisjoint a (List.mem_cons_self ..) a' (List.mem_cons_of_mem _ ha') hne bs bs' hbs hbs'
        hb hb'
    · intro b hb
      rcases List.mem_append.mp hb with hb | hb
      · exact ⟨a, List.mem_cons_self .., bs, hbs, hb⟩
      · obtain ⟨a', ha', hrest⟩ := hmem b hb
        exact ⟨a', List.mem_cons_of_mem _ ha', hrest⟩

/-- With unique ids no event contributes twice. -/
theorem contributions_nodup (hunique : UniqueIds resp) {evs : List Event}
    (h : contributions lower resp opt fuel = some evs) : evs.Nodup := by
  have hevents : (matchEvents resp opt).Nodup := hunique.of_map.filter _
  obtain ⟨lists, hlists, rfl⟩ := Option.map_eq_some_iff.mp h
  refine (nodup_flatten_mapM hevents ?_ ?_ hlists).1
  · exact fun e he evs hevs => contributors_nodup hunique he hevs
  · exact fun e he e' he' hne evs evs' h h' => contributors_disjoint hunique he he' hne h h'

/-- The mapper ends, and gives no event's factors twice where ids are unique, exactly
when no sub-event loops below a match; with unique ids none does. -/
theorem build_ends_iff (lower : Char → Char) (resp : ListResponse) (idx : Index) (opt : Options) :
    (((∃ fuel, (Build lower resp idx opt fuel).isSome) ∧
      (UniqueIds resp → ∀ fuel evs, contributions lower resp opt fuel = some evs → evs.Nodup)) ↔
        LoopFree resp opt) ∧
    (UniqueIds resp → LoopFree resp opt) := by
  refine ⟨⟨fun h => build_ends_iff_loopFree.mp h.1, fun h => ?_⟩, loopFree_of_unique⟩
  exact ⟨build_ends_iff_loopFree.mpr h,
    fun hunique fuel evs hevs => contributions_nodup hunique hevs⟩

/-! ## A repeated id -/

namespace Sample

def event (id parentId level : Int) (name : String) : Event where
  id := id
  parentId := parentId
  level := level
  sportId := 1
  kind := 1
  team1 := "Home FC".toList
  team2 := "Away FC".toList
  team1Id := 0
  team2Id := 0
  name := name.toList
  startTime := 0
  place := "line"

/-- The second half stands under the match, and once more under itself. -/
def repeated : ListResponse where
  sports := [⟨1, none⟩]
  events := [event 10 0 1 "", event 20 10 2 "2nd half", event 20 20 3 "2nd half"]
  customFactors := []
  eventBlocks := []
  finished := []

def everything : Options := ⟨[], [], true, 0, none⟩

end Sample

open Sample in
/-- The walk over a response with a repeated id does not end. -/
theorem repeated_id_never_ends :
    ¬ ∀ (lower : Char → Char) (resp : ListResponse) (idx : Index) (opt : Options),
      (∃ fuel, (Build lower resp idx opt fuel).isSome) ∧
      (UniqueIds resp → ∀ fuel evs, contributions lower resp opt fuel = some evs → evs.Nodup) := by
  intro h
  have hfree := build_ends_iff_loopFree.mp (h Char.toLower repeated (fun _ => none) everything).1
  have hmatch : event 10 0 1 "" ∈ matchEvents repeated everything :=
    List.mem_filter.mpr ⟨List.mem_cons_self .., by decide⟩
  have hchild : event 20 10 2 "2nd half" ∈ children repeated 10 :=
    mem_children.mpr ⟨by simp [repeated], by decide, by decide, rfl⟩
  have hbelow : event 20 20 3 "2nd half" ∈ children repeated 20 :=
    mem_children.mpr ⟨by simp [repeated], by decide, by decide, rfl⟩
  have hnamed : subEventName (event 20 10 2 "2nd half") ≠ [] := by decide
  have hkid : ∀ parentId level, event 20 20 3 "2nd half" ∈
      subEvents repeated (event 20 parentId level "2nd half") := by
    intro parentId level
    unfold subEvents
    exact (if_neg hnamed).symm ▸ hbelow
  exact hfree rfl _ hmatch _ hchild _ (.single (hkid 10 2)) (.single (hkid 20 3))

end Oddzilla.Fonbet
