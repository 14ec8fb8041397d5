import AppBuilder.Artifacts.SharedFilesystemStore

/-! Where the blobs of a store are, and what is never a blob. -/
namespace AppBuilder.Artifacts.SharedFilesystem
open Encoding
open SharedFilesystemArtifactStore (tempPathFor)

section Paths

variable {store : SharedFilesystemArtifactStore} {storageKey path : Text}

theorem not_mem_of_isHexText {n : ℕ} {s : Text} {c : Char} (h : isHexText n s = true)
    (hc : isHexCharacter c = false) : c ∉ s := by
  intro hmem
  have hall := List.all_eq_true.mp (Bool.and_eq_true_iff.mp h).2 c hmem
  rw [hc] at hall
  cases hall

theorem length_of_isHexText {n : ℕ} {s : Text} (h : isHexText n s = true) : s.length = n :=
  eq_of_beq (Bool.and_eq_true_iff.mp h).1

theorem plain_of_isHexText {n : ℕ} {s : Text} (h : isHexText n s = true) (hn : n ≠ 0) :
    Path.Plain s := by
  have hdot : '.' ∉ s := not_mem_of_isHexText h rfl
  refine ⟨not_mem_of_isHexText h rfl, ?_, ?_, ?_⟩
  · rintro rfl
    exact hn (length_of_isHexText h).symm
  · rintro rfl
    exact hdot List.mem_cons_self
  · rintro rfl
    exact hdot List.mem_cons_self

/-- The segments that `STORAGE_KEY_PATTERN` asks for. -/
structure KeySegments (storageKey a b name : Text) : Prop where
  segments : Path.segments storageKey = [text "v1", a, b, name]
  first : isHexText 2 a = true
  second : isHexText 2 b = true
  length : name.length = 40
  ending : text ".json.gz" <:+ name

theorem isStorageKey_spec (h : isStorageKey storageKey = true) :
    ∃ a b name, KeySegments storageKey a b name := by
  unfold isStorageKey at h
  split at h
  · rename_i version a b name heq
    simp only [Bool.and_eq_true, beq_iff_eq] at h
    obtain ⟨⟨⟨⟨hversion, ha⟩, hb⟩, hstem⟩, hending⟩ := h
    have hlength := length_of_isHexText hstem
    have htail := congrArg List.length hending
    have height : (text ".json.gz").length = 8 := by decide
    rw [List.length_take] at hlength
    rw [List.length_drop, height] at htail
    refine ⟨a, b, name, by rw [heq, hversion], ha, hb, by omega, ?_⟩
    rw [← hending]
    exact List.drop_suffix 32 name
  · cases h

namespace KeySegments

variable {a b name : Text}

theorem plain_parent (h : KeySegments storageKey a b name) :
    ∀ s ∈ [text "v1", a, b], Path.Plain s := by
  have hversion : Path.Plain (text "v1") := ⟨by decide, by decide, by decide, by decide⟩
  intro s hs
  simp only [List.mem_cons, List.not_mem_nil, or_false] at hs
  rcases hs with rfl | rfl | rfl
  · exact hversion
  · exact plain_of_isHexText h.first (by decide)
  · exact plain_of_isHexText h.second (by decide)

theorem plain (h : KeySegments storageKey a b name) : Path.IsPlain storageKey := by
  have hname : Path.Plain name := by
    have hlength := h.length
    have hmem : name ∈ Path.segments storageKey := by
      rw [h.segments]
      simp
    refine ⟨Path.not_mem_of_mem_segments hmem, ?_, ?_, ?_⟩
    · rintro rfl
      simp at hlength
    · rintro rfl
      simp [Path.dot] at hlength
    · rintro rfl
      simp [Path.dotDot] at hlength
  intro s hs
  rw [h.segments] at hs
  have hs : s ∈ [text "v1", a, b] ∨ s = name := by simpa [or_assoc] using hs
  rcases hs with hs | rfl
  · exact h.plain_parent s hs
  · exact hname

end KeySegments

theorem normalize_absolute {ss : List Text} (hne : ss ≠ []) (hss : ∀ s ∈ ss, Path.Plain s) :
    Path.normalize ('/' :: Path.joined ss) = '/' :: Path.joined ss := by
  have hplain := Path.isPlain_joined hne hss
  have hjoined := Path.ne_nil_of_plain hplain
  have hstring : Path.normalizeString ('/' :: Path.joined ss) false = Path.joined ss := by
    rw [Path.normalizeString, Path.foldl_enter_joined hss, List.reverse_reverse]
  have hlast : (('/' :: Path.joined ss).getLast? == some '/') = false := by
    rw [List.getLast?_cons_of_ne_nil hjoined]
    simpa using Path.getLast_of_plain hplain
  have habs : Path.isAbsolute ('/' :: Path.joined ss) = true := rfl
  rw [Path.normalize, if_neg (List.cons_ne_nil _ _)]
  simp only [habs, Bool.not_true, hstring, hlast, hjoined, if_true, if_false]
  simp

section Store

variable {location : List Text} {component : Text}

theorem store_absolute (store : SharedFilesystemArtifactStore) : Path.isAbsolute store.root = true := by
  rw [← store.resolved]
  rfl

theorem names_root_plain (store : SharedFilesystemArtifactStore) :
    ∀ s ∈ Path.names store.root, Path.Plain s := by
  have hspec := (Path.resolve_spec store.cwd [store.root]).1
  rwa [store.resolved] at hspec

theorem below_nil (store : SharedFilesystemArtifactStore) : Path.below store.root [] = store.root := by
  have hspec := (Path.resolve_spec store.cwd [store.root]).2
  rw [store.resolved] at hspec
  rw [Path.below, List.append_nil]
  exact hspec.symm

theorem join_below (hroot : Path.names store.root ≠ []) (hlocation : ∀ s ∈ location, Path.Plain s)
    (hcomponent : Path.Plain component) :
    join (Path.below store.root location) component =
      Path.below store.root (location ++ [component]) := by
  have hne : Path.names store.root ++ location ≠ [] := by simp [hroot]
  have hjoined := Path.joined_append hne (List.cons_ne_nil component [])
  have hplain : ∀ s ∈ Path.names store.root ++ location ++ [component], Path.Plain s := by
    intro s hs
    rcases List.mem_append.mp hs with hs | hs
    · rcases List.mem_append.mp hs with hs | hs
      · exact names_root_plain store s hs
      · exact hlocation s hs
    · rw [List.mem_singleton.mp hs]
      exact hcomponent
  have hone : Path.joined [component] = component := by simp [Path.joined]
  rw [hone] at hjoined
  rw [join, Path.below, List.cons_append, ← hjoined, normalize_absolute (by simp) hplain, Path.below,
    List.append_assoc]

theorem length_names_below (hlocation : ∀ s ∈ location, Path.Plain s) :
    (Path.names (Path.below store.root location)).length =
      (Path.names store.root).length + location.length := by
  rw [Path.names_below (names_root_plain store) hlocation, List.length_append]

theorem resolveKey_ok (h : store.resolveKey storageKey = .ok path) :
    (∃ a b name, KeySegments storageKey a b name) ∧ Path.names store.root ≠ [] ∧
      path = Path.below store.root (Path.segments storageKey) := by
  unfold SharedFilesystemArtifactStore.resolveKey at h
  dsimp only at h
  split_ifs at h with hkey hinside
  obtain ⟨a, b, name, hsegments⟩ := isStorageKey_spec (by simpa using hkey)
  have hresolve := @Path.resolve_below store.cwd _ _ (store_absolute store) hsegments.plain
  rw [store.resolved] at hresolve
  rw [← Except.ok.inj h]
  refine ⟨⟨a, b, name, hsegments⟩, fun hroot => ?_, hresolve⟩
  -- below the root of the file system nothing starts with two separators
  have hslash : store.root = ['/'] := by
    rw [← below_nil store, Path.below, hroot]
    rfl
  rw [hresolve, Path.below, hroot, List.nil_append, Path.joined_segments, hslash] at hinside
  have hrelative := Path.isAbsolute_of_plain hsegments.plain
  cases hkeyText : storageKey with
  | nil => exact Path.ne_nil_of_plain hsegments.plain hkeyText
  | cons c rest =>
    rw [hkeyText] at hinside hrelative
    have hc : (some c == some '/') = false := hrelative
    have hc' : ('/' == c) = false := by rw [BEq.comm]; simpa using hc
    simp [startsWith, List.isPrefixOf, hc'] at hinside

theorem resolveKey_injective {key key' : Text} (h : store.resolveKey key = .ok path)
    (h' : store.resolveKey key' = .ok path) : key = key' := by
  obtain ⟨⟨a, b, name, hkey⟩, -, hpath⟩ := resolveKey_ok h
  obtain ⟨⟨a', b', name', hkey'⟩, -, hpath'⟩ := resolveKey_ok h'
  have hnames := congrArg Path.names (hpath.symm.trans hpath')
  rw [Path.names_below (names_root_plain store) hkey.plain,
    Path.names_below (names_root_plain store) hkey'.plain] at hnames
  rw [← Path.joined_segments key, ← Path.joined_segments key', List.append_cancel_left hnames]

theorem segments_below (hroot : Path.names store.root ≠ []) (hlocation : ∀ s ∈ location, Path.Plain s) :
    Path.segments (Path.below store.root location) =
      [] :: (Path.names store.root ++ location) := by
  have hne : Path.names store.root ++ location ≠ [] := by simp [hroot]
  have hslash : ∀ s ∈ Path.names store.root ++ location, '/' ∉ s := by
    intro s hs
    rcases List.mem_append.mp hs with hs | hs
    · exact (names_root_plain store s hs).noSlash
    · exact (hlocation s hs).noSlash
  have hsegments := Path.segments_cons_slash [] (Path.joined (Path.names store.root ++ location))
  rw [Path.segments_joined hne hslash] at hsegments
  exact hsegments

theorem dirname_below (hroot : Path.names store.root ≠ [])
    (hlocation : ∀ s ∈ location ++ [component], Path.Plain s) :
    dirname (Path.below store.root (location ++ [component])) = Path.below store.root location := by
  have hne : Path.names store.root ++ location ≠ [] := by simp [hroot]
  have hdrop : ([] :: (Path.names store.root ++ (location ++ [component]))).dropLast =
      [[]] ++ (Path.names store.root ++ location) := by
    rw [← List.append_assoc, ← List.cons_append, List.dropLast_concat]
    rfl
  have hjoined := Path.joined_append (List.cons_ne_nil [] []) hne
  have hempty : Path.joined [[]] = [] := rfl
  rw [hempty, List.nil_append] at hjoined
  rw [dirname, segments_below hroot hlocation, hdrop, hjoined]
  exact if_neg (List.cons_ne_nil _ _)

theorem components_below (hne : location ≠ []) (hlocation : ∀ s ∈ location, Path.Plain s) :
    store.components (Path.below store.root location) = location := by
  have hplain : ∀ s ∈ Path.names store.root ++ location, Path.Plain s := by
    intro s hs
    rcases List.mem_append.mp hs with hs | hs
    · exact names_root_plain store s hs
    · exact hlocation s hs
  have hresolve : Path.resolve store.cwd [Path.below store.root location] =
      Path.below store.root location := by
    rw [Path.resolve_absolute rfl, Path.below, Path.foldl_enter_joined hplain, List.reverse_reverse]
  rw [SharedFilesystemArtifactStore.components, Path.relative, store.resolved, hresolve,
    Path.names_below (names_root_plain store) hlocation, Path.relativeNames_append, Path.names,
    Path.segments_joined hne fun s hs => (hlocation s hs).noSlash, List.filter_eq_self]
  intro s hs
  simpa using (hlocation s hs).ne_nil

/-- The final paths are those of the storage keys. -/
def SharedFilesystemArtifactStore.Final (store : SharedFilesystemArtifactStore) (path : Text) :
    Prop := ∃ storageKey, store.resolveKey storageKey = .ok path

theorem not_final_below (hlength : location.length ≤ 3) (hlocation : ∀ s ∈ location, Path.Plain s) :
    ¬ store.Final (Path.below store.root location) := by
  rintro ⟨key, hkey⟩
  obtain ⟨⟨a, b, name, hsegments⟩, -, hpath⟩ := resolveKey_ok hkey
  have hnames := congrArg (fun p => (Path.names p).length) hpath
  rw [length_names_below hlocation, length_names_below hsegments.plain, hsegments.segments] at hnames
  simp only [List.length_cons, List.length_nil] at hnames
  omega

theorem getLast_final (h : store.Final path) : path.getLast? = some 'z' := by
  obtain ⟨key, hkey⟩ := h
  obtain ⟨⟨a, b, name, hsegments⟩, -, rfl⟩ := resolveKey_ok hkey
  have hname := Path.suffix_joined (Path.names store.root ++ [text "v1", a, b]) name
  rw [List.append_assoc] at hname
  obtain ⟨before, hbefore⟩ := hsegments.ending.trans hname
  have hne : text ".json.gz" ≠ [] := by decide
  rw [Path.below, hsegments.segments, List.getLast?_cons]
  have hjoined : Path.joined (Path.names store.root ++ [text "v1", a, b, name]) =
      before ++ text ".json.gz" := hbefore.symm
  rw [hjoined, List.getLast?_append_of_ne_nil _ hne]
  decide

/-- No temporary file has the name of a blob. -/
theorem not_final_temp (path random : Text) : ¬ store.Final (tempPathFor path random) := by
  intro h
  have hlast := getLast_final h
  have hne : text ".tmp" ≠ [] := by decide
  rw [tempPathFor, List.getLast?_append_of_ne_nil _ hne] at hlast
  revert hlast
  decide

end Store

end Paths

end AppBuilder.Artifacts.SharedFilesystem
