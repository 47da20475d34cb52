import Oddzilla.Fonbet.Mapper

/-!
# One normal form for specifiers

`Canonical(Parse(raw))` is the same text in all four copies unless a pair has the
key `__proto__`: the TypeScript copy assigns into a plain object, whose prototype
swallows it.  The rest holds of every copy.
-/

namespace Oddzilla.Theorems

/-- The pairs that make the TypeScript map a different one. -/
def NoProto (pairs : List SpecifierPair) : Prop := ∀ kv ∈ pairs, kv.1 ≠ protoKey

theorem keeps_of_noProto (c : SpecifierCopy) {pairs : List SpecifierPair} (h : NoProto pairs) :
    c.keeps pairs = pairs := by
  unfold SpecifierCopy.keeps
  split
  · rw [List.filter_eq_self]
    intro kv hkv
    rw [decide_eq_true_iff]
    exact h kv hkv
  · rfl

theorem noProto_keeps (pairs : List SpecifierPair) :
    NoProto (SpecifierCopy.typescript.keeps pairs) := by
  intro kv hkv
  unfold SpecifierCopy.keeps at hkv
  rw [if_pos rfl, List.mem_filter, decide_eq_true_iff] at hkv
  exact hkv.2

theorem noProto_tsParse (raw : String) : NoProto (tsParse raw) := by
  intro kv hkv
  have hkv : kv ∈ SpecifierCopy.typescript.parse raw := hkv
  rw [SpecifierCopy.parse_eq] at hkv
  exact noProto_keeps _ kv (lastPair_mem ((mem_assignPairs _ kv).mp hkv)).1

/-- The copies agree on a text exactly when none of its pairs has that key. -/
theorem copies_agree_iff {raw : String} (h : ∀ c ∈ raw.toList, c.toNat < 128) :
    (∀ c c' : SpecifierCopy, c.text raw = c'.text raw) ↔ NoProto (specifierPairs raw) := by
  have hascii := asciiKey_of_ascii h
  constructor
  · intro hall kv hkv hproto
    have heq := hall .settlement .typescript
    rw [SpecifierCopy.text_ascii _ hascii, SpecifierCopy.text_ascii _ hascii] at heq
    have hgo := SpecifierCopy.parse_map .settlement raw
    have hts := SpecifierCopy.parse_map .typescript raw
    have hperm := canonical_injective hgo.nodupKeys hts.nodupKeys hgo.clean hts.clean heq
    -- the Go map has an entry for the key, the TypeScript map has none
    obtain ⟨kv', hlast⟩ := lastPair_ne_none hkv
    have hkey := (lastPair_mem hlast).2
    have hmem : kv' ∈ SpecifierCopy.settlement.parse raw := by
      rw [SpecifierCopy.parse_eq, mem_assignPairs, hkey]
      exact hlast
    exact noProto_tsParse raw kv' (hperm.mem_iff.mp hmem) (hkey.trans hproto)
  · intro hno c c'
    rw [c.text_ascii hascii, c'.text_ascii hascii, c.parse_eq, c'.parse_eq, keeps_of_noProto c hno,
      keeps_of_noProto c' hno]

/-- What a copy reads back from the text it wrote. -/
theorem copy_parse_canonical (c : SpecifierCopy) {m : List SpecifierPair} (h : SpecifierMap m) :
    c.parse (String.ofList (c.canonical m)) = c.keeps (c.sorted m) := by
  rw [c.parse_eq, c.pairs_canonical h.clean]
  apply assignPairs_of_nodup
  have hsorted := nodupKeys_perm h.nodupKeys (c.sorted_perm m)
  unfold SpecifierCopy.keeps
  split
  · exact hsorted.filter _
  · exact hsorted

theorem copy_round_trip_iff (c : SpecifierCopy) {m : List SpecifierPair} (h : SpecifierMap m) :
    (c.parse (String.ofList (c.canonical m))).Perm m ↔ (c = .typescript → NoProto m) := by
  rw [copy_parse_canonical c h]
  have hsorted := c.sorted_perm m
  constructor
  · rintro hperm rfl kv hkv
    exact noProto_keeps _ kv (hperm.mem_iff.mpr hkv)
  · intro hno
    by_cases hc : c = .typescript
    · have hno : NoProto (c.sorted m) := fun kv hkv => hno hc kv (hsorted.mem_iff.mp hkv)
      rw [keeps_of_noProto c hno]
      exact hsorted
    · unfold SpecifierCopy.keeps
      rw [if_neg hc]
      exact hsorted

theorem copy_canonical_injective (c : SpecifierCopy) {m m' : List SpecifierPair}
    (h : SpecifierMap m)
    (h' : SpecifierMap m') (heq : c.canonical m = c.canonical m') : m.Perm m' := by
  have hpairs := c.pairs_canonical h.clean
  rw [heq, c.pairs_canonical h'.clean] at hpairs
  exact (c.sorted_perm m).symm.trans (hpairs ▸ c.sorted_perm m')

/-- Canonicalising a canonical text changes nothing, in every copy. -/
theorem copy_text_idempotent (c : SpecifierCopy) {raw : String}
    (h : ∀ ch ∈ raw.toList, ch.toNat < 128) :
    c.text (String.ofList (c.text raw)) = c.text raw := by
  have hascii := asciiKey_of_ascii h
  have hm := c.parse_map raw
  have hsorted := c.sorted_perm (c.parse raw)
  have hkeys : ∀ kv ∈ c.sorted (c.parse raw), AsciiKey kv :=
    fun kv hkv => hascii kv (c.mem_parse (hsorted.mem_iff.mp hkv))
  have hkeeps : c.keeps (c.sorted (c.parse raw)) = c.sorted (c.parse raw) := by
    by_cases hc : c = .typescript
    · subst hc
      exact keeps_of_noProto _ fun kv hkv => noProto_tsParse raw kv (hsorted.mem_iff.mp hkv)
    · unfold SpecifierCopy.keeps
      rw [if_neg hc]
  show c.canonical (c.parse (String.ofList (c.canonical (c.parse raw)))) = _
  rw [copy_parse_canonical c hm, hkeeps, c.canonical_ascii hkeys, c.text_ascii hascii]
  exact (canonicalSpecifiers_perm hm.nodupKeys hsorted.symm).symm

/-- The order of pairs with distinct keys does not matter, in any copy. -/
theorem copy_text_reorder (c : SpecifierCopy) {parts parts' : List (List Char)}
    (hp : parts.Perm parts')
    (hbar : ∀ w ∈ parts, '|' ∉ w) (hascii : ∀ w ∈ parts, ∀ ch ∈ w, ch.toNat < 128)
    (hkeys : (parts.filterMap splitPair).Pairwise fun e e' => e.1 ≠ e'.1) :
    c.text (String.ofList (['|'].intercalate parts)) = c.text
      (String.ofList (['|'].intercalate parts')) := by
  have hbar' : ∀ w ∈ parts', '|' ∉ w := fun w hw => hbar w (hp.mem_iff.mpr hw)
  have hperm : (parts.filterMap splitPair).Perm (parts'.filterMap splitPair) := hp.filterMap _
  have hkey : ∀ kv ∈ parts.filterMap splitPair, AsciiKey kv := by
    intro kv hkv ch hch
    obtain ⟨w, hw, hsplit⟩ := List.mem_filterMap.mp hkv
    obtain ⟨rfl, -⟩ := splitPair_eq_some hsplit
    exact hascii _ hw ch (List.mem_append_left _ hch)
  have hkey' : ∀ kv ∈ parts'.filterMap splitPair, AsciiKey kv :=
    fun kv hkv => hkey kv (hperm.mem_iff.mpr hkv)
  have hkeeps :
    (c.keeps (parts.filterMap splitPair)).Perm (c.keeps (parts'.filterMap splitPair)) := by
    unfold SpecifierCopy.keeps
    split
    · exact hperm.filter _
    · exact hperm
  have hnodup : (c.keeps (parts.filterMap splitPair)).Pairwise fun e e' => e.1 ≠ e'.1 := by
    unfold SpecifierCopy.keeps
    split
    · exact hkeys.filter _
    · exact hkeys
  rw [c.text_ascii (by rwa [specifierPairs_parts hbar]), c.text_ascii (by rwa [specifierPairs_parts hbar']),
    c.parse_eq, c.parse_eq, specifierPairs_parts hbar, specifierPairs_parts hbar', assignPairs_of_nodup hnodup,
    assignPairs_of_nodup (nodupKeys_perm hnodup hkeeps.symm)]
  exact canonicalSpecifiers_perm hnodup hkeeps

/-- The normal form of all services, and the one key on which they differ. -/
theorem specifier_normal_form (lower : Char → Char) :
    (∀ raw : String, (∀ ch ∈ raw.toList, ch.toNat < 128) →
      ((∀ c c' : SpecifierCopy, c.text raw = c'.text raw) ↔ NoProto (specifierPairs raw)) ∧
      (∀ c : SpecifierCopy, c.text (String.ofList (c.text raw)) = c.text raw)) ∧
    (∀ (c : SpecifierCopy) (parts parts' : List (List Char)), parts.Perm parts' →
      (∀ w ∈ parts, '|' ∉ w) → (∀ w ∈ parts, ∀ ch ∈ w, ch.toNat < 128) →
      ((parts.filterMap splitPair).Pairwise fun e e' => e.1 ≠ e'.1) →
      c.text (String.ofList (['|'].intercalate parts)) =
        c.text (String.ofList (['|'].intercalate parts'))) ∧
    (∀ (c : SpecifierCopy) (m : List SpecifierPair), SpecifierMap m →
      ((c.parse (String.ofList (c.canonical m))).Perm m ↔ (c = .typescript → NoProto m))) ∧
    (∀ (c : SpecifierCopy) (m m' : List SpecifierPair), SpecifierMap m → SpecifierMap m' →
      c.canonical m = c.canonical m' → m.Perm m') ∧
    ∀ (resp : Fonbet.ListResponse) (idx : Fonbet.Index) (opt : Fonbet.Options) (fuel : Nat)
      (snap : Fonbet.Snapshot), Fonbet.Build lower resp idx opt fuel = some snap →
      ∀ m ∈ snap.matches_, ∀ mk ∈ m.markets,
        SpecifierMap mk.specs ∧ mk.canonical = canonicalSpecifiers mk.specs := by
  refine ⟨fun raw h => ⟨copies_agree_iff h, fun c => copy_text_idempotent c h⟩,
    fun c _ _ hp hbar hascii hkeys => copy_text_reorder c hp hbar hascii hkeys,
    fun c _ h => copy_round_trip_iff c h, fun c _ _ h h' heq =>
      copy_canonical_injective c h h' heq, ?_⟩
  intro resp idx opt fuel snap hbuild m hm mk hmk
  have hkeyed := Fonbet.Build_wellKeyed hbuild hm mk hmk
  exact ⟨hkeyed.specs, hkeyed.canonical⟩

/-- On a text without the key all copies agree. -/
theorem specifier_normal_form_map :
    ∀ c c' : SpecifierCopy, c.text "map=1|handicap=-1.5" = c'.text "map=1|handicap=-1.5" := by
  have hascii : ∀ ch ∈ "map=1|handicap=-1.5".toList, ch.toNat < 128 := by simp
  refine (((specifier_normal_form Char.toLower).1 _ hascii).1).mpr ?_
  unfold NoProto
  decide

/-- The Go copies keep the pair, the TypeScript copy loses it. -/
theorem proto_key_lost :
    ¬ ∀ raw : String, (∀ ch ∈ raw.toList, ch.toNat < 128) →
      ∀ c c' : SpecifierCopy, c.text raw = c'.text raw := by
  intro h
  have heq := h "__proto__=1" (by simp) .settlement .typescript
  revert heq
  decide

end Oddzilla.Theorems
