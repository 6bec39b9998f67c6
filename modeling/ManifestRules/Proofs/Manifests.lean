import ManifestRules.Files.Tree
import ManifestRules.Input
import Mathlib
/-!
# The manifests of a directory

A directory is gone through depth first, and the entries of each directory in the order of their
names. So the manifests in it are listed in the order in which their ways part
(`Input.ComesBefore`), each once, and hidden directories are left out with all that is in them; the
name of the directory that was asked for does not count (`Input.manifestFiles_outcome`). Names are
bytes. One that is no text neither hides an entry nor makes it a manifest. And a directory that
cannot be read, unless it is left out, ends the search.
-/

namespace ManifestRules

namespace Location

/-- A name that an entry of a directory has: it is not empty and holds no slash. -/
def isName (name : RawText) : Bool := !name.bytes.isEmpty && !name.bytes.contains slash

/-- The location that names lead to from a directory. -/
def along (directory : RawText) (names : List RawText) : RawText := names.foldl entry directory

/-- What stands in front of the name of an entry. -/
def lead (directory : List UInt8) : List UInt8 :=
  match directory.getLast? with
  | none => []
  | some b => if b = slash then directory else directory ++ [slash]

variable {directory name : RawText} {names : List RawText}

/-- A name is not empty and holds no slash. -/
theorem isName_iff : isName name = true ↔ name.bytes ≠ [] ∧ slash ∉ name.bytes := by
  simp [isName]

/-- The location of an entry is its name behind what stands in front of it. -/
theorem bytes_entry (hname : isName name = true) (directory : RawText) :
    (entry directory name).bytes = lead directory.bytes ++ name.bytes := by
  have hrelative : name.bytes.head? ≠ some slash := fun hhead =>
    (isName_iff.mp hname).2 (List.mem_of_head? hhead)
  rw [entry, joinWith, if_neg hrelative, lead]
  cases directory.bytes.getLast? with
  | none => rfl
  | some b =>
    by_cases hb : b = slash
    · simp [hb]
    · simp [hb]

/-- Behind a name there is a slash in front of the next one. -/
theorem lead_append (hname : isName name = true) (before : List UInt8) :
    lead (before ++ name.bytes) = before ++ name.bytes ++ [slash] := by
  obtain ⟨hne, hslash⟩ := isName_iff.mp hname
  have hlast : (before ++ name.bytes).getLast? = some (name.bytes.getLast hne) := by
    rw [List.getLast?_append, List.getLast?_eq_some_getLast hne, Option.some_or]
  have hother : name.bytes.getLast hne ≠ slash := fun h => hslash (h ▸ List.getLast_mem hne)
  rw [lead, hlast]
  exact if_neg hother

/-- The location that names lead to is joined from them with slashes. -/
theorem bytes_along (directory : RawText) (hname : isName name = true)
    (hnames : ∀ n ∈ names, isName n = true) :
    (along directory (name :: names)).bytes =
      lead directory.bytes ++ [slash].intercalate ((name :: names).map RawText.bytes) := by
  induction names generalizing directory name with
  | nil =>
    rw [along, List.foldl_cons, List.foldl_nil, bytes_entry hname]
    simp
  | cons next names ih =>
    have hnext := hnames next List.mem_cons_self
    have hmore : ∀ n ∈ names, isName n = true := fun n hn => hnames n (List.mem_cons_of_mem _ hn)
    have hstep : along directory (name :: next :: names) =
        along (entry directory name) (next :: names) := rfl
    rw [hstep, ih _ hnext hmore, bytes_entry hname, lead_append hname, List.map_cons,
      List.map_cons, List.map_cons, List.intercalate_cons_cons]
    simp only [List.append_assoc]

/-- Different names lead to different locations. -/
theorem along_injective {names others : List RawText} (hne : names ≠ []) (hne' : others ≠ [])
    (hnames : ∀ n ∈ names, isName n = true) (hothers : ∀ n ∈ others, isName n = true)
    (h : along directory names = along directory others) : names = others := by
  obtain ⟨name, names, rfl⟩ := List.exists_cons_of_ne_nil hne
  obtain ⟨other, others, rfl⟩ := List.exists_cons_of_ne_nil hne'
  have hslash : ∀ ns : List RawText, (∀ n ∈ ns, isName n = true) →
      ∀ s ∈ ns.map RawText.bytes, slash ∉ s := by
    intro ns hns
    rw [List.forall_mem_map]
    exact fun n hn => (isName_iff.mp (hns n hn)).2
  have hlists := congrArg RawText.bytes h
  rw [bytes_along directory (hnames name List.mem_cons_self)
      (fun n hn => hnames n (List.mem_cons_of_mem _ hn)),
    bytes_along directory (hothers other List.mem_cons_self)
      (fun n hn => hothers n (List.mem_cons_of_mem _ hn)), List.append_right_inj] at hlists
  have hsplit := congrArg (List.splitOn slash) hlists
  rw [List.splitOn_intercalate slash (hslash _ hnames) (by simp),
    List.splitOn_intercalate slash (hslash _ hothers) (by simp)] at hsplit
  exact List.map_injective_iff.mpr (fun _ _ => congrArg RawText.mk) hsplit

end Location

namespace Listing

mutual
/-- The entries of every directory have names that are pairwise different. -/
def isProper : Listing → Bool
  | .file | .unreadable _ | .special => true
  | .directory entries => decide ((entries.map (·.1)).Nodup) && entriesAreProper entries
/-- Entries have names, and so have the ones in them. -/
def entriesAreProper : List (RawText × Listing) → Bool
  | [] => true
  | (name, l) :: rest => Location.isName name && l.isProper && entriesAreProper rest
end

/-- Names lead from a listing to what is listed under them. -/
inductive Reaches : Listing → List RawText → Listing → Prop where
  /-- No name leads away. -/
  | here (l : Listing) : Reaches l [] l
  /-- The first name is that of an entry, from which the others lead on. -/
  | into {entries : List (RawText × Listing)} {name : RawText} {l k : Listing}
    {names : List RawText} (hentry : (name, l) ∈ entries) (hrest : Reaches l names k) :
    Reaches (.directory entries) (name :: names) k

/-- All entries have names and are proper. -/
theorem entriesAreProper_iff (entries : List (RawText × Listing)) :
    entriesAreProper entries = true ↔
      ∀ e ∈ entries, Location.isName e.1 = true ∧ e.2.isProper = true := by
  induction entries with
  | nil => simp [entriesAreProper]
  | cons e entries ih =>
    rw [entriesAreProper, Bool.and_eq_true, Bool.and_eq_true, ih, List.forall_mem_cons]

/-- In a proper listing names lead on. -/
theorem Reaches.isName {l k : Listing} {names : List RawText} (h : l.Reaches names k)
    (hl : l.isProper = true) : ∀ n ∈ names, Location.isName n = true := by
  induction h with
  | here l => simp
  | into hentry _ ih =>
    rw [isProper, Bool.and_eq_true, entriesAreProper_iff] at hl
    obtain ⟨hname, hproper⟩ := hl.2 _ hentry
    exact List.forall_mem_cons.mpr ⟨hname, ih hproper⟩

end Listing

namespace Input

/-- The ways to two places part in a directory where the one goes on to the entry that comes first by
its name. -/
inductive ComesBefore : List RawText → List RawText → Prop where
  /-- They part here. -/
  | here {a b : RawText} (h : a < b) (p q : List RawText) : ComesBefore (a :: p) (b :: q)
  /-- They part in the directory of this name, or further in. -/
  | inside (name : RawText) {p q : List RawText} (h : ComesBefore p q) :
    ComesBefore (name :: p) (name :: q)

/-- No place comes before itself. -/
theorem ComesBefore.ne {p q : List RawText} (h : ComesBefore p q) : p ≠ q := by
  induction h with
  | @here a b h p q =>
    intro heq
    rw [(List.cons.inj heq).1] at h
    exact List.lt_irrefl b.bytes h
  | inside name _ ih =>
    intro heq
    exact ih (List.cons.inj heq).2

/-- A name that does not begin with a dot, or that is no text. -/
def IsVisible (name : RawText) : Prop :=
  ∀ text, name.text? = some text → text.toList.head? ≠ some '.'

/-- A name that is a text with one of two endings. -/
def NamesManifest (name : RawText) : Prop :=
  ∃ text, name.text? = some text ∧
    (".yaml".toList <:+ text.toList ∨ ".yml".toList <:+ text.toList)

/-- Names that are not hidden lead from a listing to what is listed under them. -/
structure Shows (l : Listing) (names : List RawText) (k : Listing) : Prop where
  /-- They lead there. -/
  place : l.Reaches names k
  /-- None of them is hidden. -/
  visible : ∀ name ∈ names, IsVisible name

/-- Names lead to a manifest in a directory: a file that is named as one, and is neither hidden nor
in a hidden directory. -/
structure IsManifestIn (l : Listing) (names : List RawText) : Prop where
  /-- There is a file. -/
  file : Shows l names .file
  /-- Its own name is that of a manifest. -/
  ending : ∃ inner name, names = inner ++ [name] ∧ NamesManifest name

/-- What a search from a location comes to, where some names lead to what is wanted and some to what
bars the way. -/
inductive Outcome (wanted : List RawText → Prop) (barring : List RawText → FileFault → Prop)
    (location : RawText) : Except Error (List RawText) → Prop where
  /-- Nothing bars the way. What is wanted is listed and nothing else is, in the order of a
  depth-first walk that goes through every directory in the order of names. -/
  | listed {paths : List (List RawText)} (hopen : ∀ names f, ¬barring names f)
    (hmem : ∀ names, names ∈ paths ↔ wanted names) (hordered : paths.Pairwise ComesBefore) :
    Outcome wanted barring location (.ok (paths.map (Location.along location)))
  /-- The first place that bars the way is reported. -/
  | barred {names : List RawText} {f : FileFault} (hbarring : barring names f)
    (hfirst : ∀ others k, barring others k → names = others ∨ ComesBefore names others) :
    Outcome wanted barring location (.error (unreadable (Location.along location names) f))

/-- The name of a manifest is a text with one of two endings. -/
theorem isManifestName_iff (name : RawText) :
    isManifestName name.text? = true ↔ NamesManifest name := by
  have hends : ∀ text ending : String,
      text.endsWith ending = true ↔ ending.toList <:+ text.toList := by
    intro text ending
    rw [String.endsWith_eq_endsWith_toSlice, String.Slice.endsWith_string_iff, String.copy_toSlice]
  rw [isManifestName, NamesManifest, Option.any_eq_true]
  simp only [Bool.or_eq_true, hends]

/-- An entry is not hidden if its name is visible. -/
theorem isHidden_eq_false_iff (name : RawText) : isHidden name.text? = false ↔ IsVisible name := by
  rw [isHidden, IsVisible, Option.any_eq_false]
  simp

/-- The entries that are not hidden, in the order of their names. -/
def visibleEntries (entries : List (RawText × Listing)) : List (RawText × Listing) :=
  (entries.filter fun e => !isHidden e.1.text?).mergeSort fun a b => nameLe a.1 b.1

variable {entries : List (RawText × Listing)}

/-- An entry is gone into if it is not hidden. -/
theorem mem_visibleEntries {e : RawText × Listing} :
    e ∈ visibleEntries entries ↔ e ∈ entries ∧ IsVisible e.1 := by
  rw [visibleEntries, (List.mergeSort_perm _ _).mem_iff, List.mem_filter, Bool.not_eq_true',
    isHidden_eq_false_iff]

/-- The entries come in ascending order if no two have the same name. -/
theorem pairwise_visibleEntries (hnames : (entries.map (·.1)).Nodup) :
    (visibleEntries entries).Pairwise fun a b => a.1 < b.1 := by
  have hle : ∀ a b : RawText, nameLe a b = true ↔ a.bytes ≤ b.bytes := by
    intro a b
    rw [nameLe, Bool.not_eq_true', decide_eq_false_iff_not]
    exact List.not_lt
  have hsorted : (visibleEntries entries).Pairwise fun a b => nameLe a.1 b.1 = true := by
    refine List.pairwise_mergeSort ?_ ?_ _
    · intro a b c hab hbc
      exact (hle _ _).mpr (List.le_trans ((hle _ _).mp hab) ((hle _ _).mp hbc))
    · intro a b
      rw [Bool.or_eq_true, hle, hle]
      exact List.le_total a.1.bytes b.1.bytes
  have hdistinct : ((visibleEntries entries).map (·.1)).Nodup := by
    refine ((List.mergeSort_perm _ _).map _).nodup_iff.mpr ?_
    exact hnames.sublist (List.filter_sublist.map _)
  refine hsorted.imp₂ (fun a b hab hne => ?_) (List.pairwise_map.mp hdistinct)
  obtain hlt | heq := List.le_iff_lt_or_eq.mp ((hle _ _).mp hab)
  · exact hlt
  · exact absurd (congrArg RawText.mk heq) hne

/-- The manifests of the entries that are not hidden, with the names of the entries. -/
theorem entryManifests_eq (location : RawText) (entries : List (RawText × Listing)) :
    entryManifests location entries =
      (entries.filter fun e => !isHidden e.1.text?).map fun e =>
        (e.1, manifests (Location.entry location e.1) e.1 e.2) := by
  induction entries with
  | nil => rfl
  | cons e entries ih =>
    rw [entryManifests, ih, List.filter_cons]
    cases isHidden e.1.text? <;> rfl

/-- The manifests of a directory are those of its entries, one entry behind the other. -/
theorem manifests_directory (location name : RawText) (entries : List (RawText × Listing)) :
    manifests location name (.directory entries) =
      List.flatten <$> (visibleEntries entries).mapM fun e =>
        manifests (Location.entry location e.1) e.1 e.2 := by
  rw [manifests, entryManifests_eq, visibleEntries,
    ← List.map_mergeSort (r := fun a b => nameLe a.1 b.1), List.mapM_map]
  · rfl
  · intro a _ b _
    rfl

/-- Names lead to something by one of these entries. -/
def Below (es : List (RawText × Listing)) (P : RawText × Listing → List RawText → Prop)
    (names : List RawText) : Prop :=
  ∃ e ∈ es, ∃ rest, names = e.1 :: rest ∧ P e rest

/-- They do so by the first entry or by one of the others. -/
theorem below_cons_iff {e : RawText × Listing} {es : List (RawText × Listing)}
    {P : RawText × Listing → List RawText → Prop} {names : List RawText} :
    Below (e :: es) P names ↔ (∃ rest, names = e.1 :: rest ∧ P e rest) ∨ Below es P names :=
  List.exists_mem_cons_iff ..

/-- From anything but a directory no names lead on. -/
theorem shows_iff_of_ne_directory {l k : Listing} {names : List RawText}
    (hl : ∀ entries, l ≠ .directory entries) : Shows l names k ↔ names = [] ∧ k = l := by
  constructor
  · rintro ⟨hplace, -⟩
    cases hplace with
    | here => exact ⟨rfl, rfl⟩
    | into => exact absurd rfl (hl _)
  · rintro ⟨rfl, rfl⟩
    exact ⟨.here _, by simp⟩

/-- From a directory the first name is that of a visible entry. -/
theorem shows_directory_iff {k : Listing} {names : List RawText}
    (hk : ∀ inner, k ≠ .directory inner) :
    Shows (.directory entries) names k ↔
      Below (visibleEntries entries) (fun e rest => Shows e.2 rest k) names := by
  constructor
  · rintro ⟨hplace, hvisible⟩
    cases hplace with
    | here => exact absurd rfl (hk _)
    | @into _ name l _ rest hentry hrest =>
      obtain ⟨hname, hmore⟩ := List.forall_mem_cons.mp hvisible
      exact ⟨(name, l), mem_visibleEntries.mpr ⟨hentry, hname⟩, rest, rfl, hrest, hmore⟩
  · rintro ⟨e, he, rest, rfl, hrest, hmore⟩
    obtain ⟨hentry, hname⟩ := mem_visibleEntries.mp he
    exact ⟨.into hentry hrest, List.forall_mem_cons.mpr ⟨hname, hmore⟩⟩

/-- What is listed for a place with the given name: the files to which names lead that are not hidden
and of which the last is that of a manifest. -/
structure IsListed (l : Listing) (own : RawText) (names : List RawText) : Prop where
  /-- There is a file. -/
  file : Shows l names .file
  /-- Its own name is that of a manifest. -/
  ending : NamesManifest (names.getLastD own)

/-- In a directory the files are listed that are listed for its entries. -/
theorem isListed_directory_iff {own : RawText} {names : List RawText} :
    IsListed (.directory entries) own names ↔
      Below (visibleEntries entries) (fun e => IsListed e.2 e.1) names := by
  constructor
  · rintro ⟨hfile, hending⟩
    obtain ⟨e, he, rest, rfl, hrest⟩ := (shows_directory_iff (k := .file) nofun).mp hfile
    rw [List.getLastD_cons] at hending
    exact ⟨e, he, rest, rfl, hrest, hending⟩
  · rintro ⟨e, he, rest, rfl, hrest, hending⟩
    refine ⟨(shows_directory_iff (k := .file) nofun).mpr ⟨e, he, rest, rfl, hrest⟩, ?_⟩
    rwa [List.getLastD_cons]

/-- In a directory manifests are listed and nothing else is. -/
theorem isListed_iff {own : RawText} {names : List RawText} :
    IsListed (.directory entries) own names ↔ IsManifestIn (.directory entries) names := by
  constructor
  · rintro ⟨hfile, hending⟩
    have hne : names ≠ [] := by
      rintro rfl
      cases hfile.place
    rw [List.getLastD_eq_getLast?, List.getLast?_eq_some_getLast hne, Option.getD_some] at hending
    exact ⟨hfile, names.dropLast, names.getLast hne, (List.dropLast_concat_getLast hne).symm,
      hending⟩
  · rintro ⟨hfile, inner, name, rfl, hending⟩
    refine ⟨hfile, ?_⟩
    rwa [List.getLastD_eq_getLast?, List.getLast?_concat, Option.getD_some]

namespace Outcome

variable {location : RawText} {r r' : Except Error (List RawText)}

/-- It does not count how it is said what is wanted and what bars the way. -/
theorem congr {wanted wanted' : List RawText → Prop} {barring barring' : List RawText → FileFault → Prop}
    (h : Outcome wanted barring location r) (hwanted : ∀ names, wanted names ↔ wanted' names)
    (hbarring : ∀ names f, barring names f ↔ barring' names f) :
    Outcome wanted' barring' location r := by
  obtain rfl : wanted = wanted' := funext fun names => propext (hwanted names)
  obtain rfl : barring = barring' := funext₂ fun names f => propext (hbarring names f)
  exact h

variable {wanted : RawText × Listing → List RawText → Prop}
  {barring : FileFault → RawText × Listing → List RawText → Prop}

/-- The search in an entry is followed by the one in the entries behind it. -/
theorem cons {e : RawText × Listing} {es : List (RawText × Listing)} (hes : ∀ e' ∈ es, e.1 < e'.1)
    (h : Outcome (wanted e) (fun names f => barring f e names) (Location.entry location e.1) r)
    (h' : Outcome (Below es wanted) (fun names f => Below es (barring f) names) location r') :
    Outcome (Below (e :: es) wanted) (fun names f => Below (e :: es) (barring f) names) location
      (r >>= fun found => r' >>= fun more => .ok (found ++ more)) := by
  cases h with
  | @barred names f hbarring hfirst =>
    have hhere : Below (e :: es) (barring f) (e.1 :: names) :=
      below_cons_iff.mpr (.inl ⟨names, rfl, hbarring⟩)
    change Outcome _ _ _ (.error (unreadable (Location.along location (e.1 :: names)) f))
    refine .barred hhere fun others k hothers => ?_
    obtain ⟨rest, rfl, hrest⟩ | ⟨e', he', rest, rfl, -⟩ := below_cons_iff.mp hothers
    · exact (hfirst rest k hrest).imp (congrArg (e.1 :: ·)) (.inside e.1)
    · exact .inr (.here (hes e' he') names rest)
  | @listed paths hopen hmem hordered =>
    cases h' with
    | @barred names f hbarring hfirst =>
      change Outcome _ _ _ (.error (unreadable (Location.along location names) f))
      refine .barred (below_cons_iff.mpr (.inr hbarring)) fun others k hothers => ?_
      obtain ⟨rest, -, hrest⟩ | hlater := below_cons_iff.mp hothers
      · exact absurd hrest (hopen rest k)
      · exact hfirst others k hlater
    | @listed more hopen' hmem' hordered' =>
      have hpaths : paths.map (Location.along (Location.entry location e.1)) ++
          more.map (Location.along location) =
          (paths.map (e.1 :: ·) ++ more).map (Location.along location) := by
        rw [List.map_append, List.map_map]
        rfl
      change Outcome _ _ _ (.ok (_ ++ _))
      rw [hpaths]
      refine .listed ?_ ?_ (List.pairwise_append.mpr ⟨?_, hordered', ?_⟩)
      · intro names f hbarring
        obtain ⟨rest, -, hrest⟩ | hlater := below_cons_iff.mp hbarring
        · exact hopen rest f hrest
        · exact hopen' names f hlater
      · intro names
        rw [List.mem_append, hmem', below_cons_iff]
        refine or_congr_left ?_
        rw [List.mem_map]
        constructor
        · rintro ⟨rest, hrest, rfl⟩
          exact ⟨rest, rfl, (hmem rest).mp hrest⟩
        · rintro ⟨rest, rfl, hrest⟩
          exact ⟨rest, (hmem rest).mpr hrest, rfl⟩
      · rw [List.pairwise_map]
        exact hordered.imp (.inside e.1)
      · intro p hp q hq
        obtain ⟨rest, -, rfl⟩ := List.mem_map.mp hp
        obtain ⟨e', he', rest', rfl, -⟩ := (hmem' q).mp hq
        exact .here (hes e' he') rest rest'

/-- Entries in the order of their names are searched one behind the other. -/
theorem of_entries {search : RawText × Listing → Except Error (List RawText)}
    {es : List (RawText × Listing)} (hes : es.Pairwise fun a b => a.1 < b.1)
    (h : ∀ e ∈ es, Outcome (wanted e) (fun names f => barring f e names)
      (Location.entry location e.1) (search e)) :
    Outcome (Below es wanted) (fun names f => Below es (barring f) names) location
      (List.flatten <$> es.mapM search) := by
  induction es with
  | nil =>
    have hnone : ∀ (P : RawText × Listing → List RawText → Prop) names, ¬Below [] P names := by
      simp [Below]
    exact .listed (fun names f => hnone _ names) (fun names => by simp [hnone]) .nil
  | cons e es ih =>
    obtain ⟨hfirst, hlater⟩ := List.pairwise_cons.mp hes
    obtain ⟨hhead, htail⟩ := List.forall_mem_cons.mp h
    have hsplit : List.flatten <$> (e :: es).mapM search =
        search e >>= fun found => (List.flatten <$> es.mapM search) >>= fun more =>
          .ok (found ++ more) := by
      rw [List.mapM_cons]
      cases search e with
      | error f => rfl
      | ok found => cases es.mapM search <;> rfl
    rw [hsplit]
    exact hhead.cons hfirst (ih hlater htail)

end Outcome

mutual
/-- The search in a proper listing is a depth-first walk. -/
theorem outcome (l : Listing) (hl : l.isProper = true) (own location : RawText) :
    Outcome (IsListed l own) (fun names f => Shows l names (.unreadable f)) location
      (manifests location own l) := by
  match l with
  | .directory entries =>
    rw [Listing.isProper, Bool.and_eq_true, decide_eq_true_iff] at hl
    have hinner := outcome_of_mem entries hl.2
    rw [manifests_directory]
    refine (Outcome.of_entries (pairwise_visibleEntries hl.1) fun e he =>
      hinner e (mem_visibleEntries.mp he).1 (Location.entry location e.1)).congr ?_ ?_
    · exact fun names => isListed_directory_iff.symm
    · exact fun names f => (shows_directory_iff (k := .unreadable f) nofun).symm
  | .unreadable f =>
    have hshows : ∀ names k, Shows (.unreadable f) names k ↔ names = [] ∧ k = .unreadable f :=
      fun names k => shows_iff_of_ne_directory (l := .unreadable f) nofun
    have hhere : Shows (.unreadable f) [] (.unreadable f) := (hshows _ _).mpr ⟨rfl, rfl⟩
    rw [manifests]
    change Outcome _ _ _ (.error (unreadable (Location.along location []) f))
    exact .barred hhere fun others k hothers => .inl ((hshows _ _).mp hothers).1.symm
  | .special =>
    have hnone : ∀ names k, k ≠ .special → ¬Shows .special names k :=
      fun names k hk hshows => hk ((shows_iff_of_ne_directory (l := .special) nofun).mp hshows).2
    rw [manifests]
    change Outcome _ _ _ (.ok (List.map (Location.along location) []))
    refine .listed (fun names f => hnone names (.unreadable f) nofun) (fun names => ?_) .nil
    exact ⟨nofun, fun hlisted => absurd hlisted.file (hnone names .file nofun)⟩
  | .file =>
    have hshows : ∀ names k, Shows .file names k ↔ names = [] ∧ k = .file :=
      fun names k => shows_iff_of_ne_directory (l := .file) nofun
    have hopen : ∀ names f, ¬Shows .file names (.unreadable f) :=
      fun names f h => nomatch ((hshows _ _).mp h).2
    have hlisted : ∀ names, IsListed .file own names ↔ names = [] ∧ NamesManifest own := by
      intro names
      constructor
      · rintro ⟨hfile, hending⟩
        obtain ⟨rfl, -⟩ := (hshows _ _).mp hfile
        exact ⟨rfl, hending⟩
      · rintro ⟨rfl, hending⟩
        exact ⟨(hshows _ _).mpr ⟨rfl, rfl⟩, hending⟩
    rw [manifests]
    by_cases hname : NamesManifest own
    · rw [if_pos ((isManifestName_iff own).mpr hname)]
      change Outcome _ _ _ (.ok ([[]].map (Location.along location)))
      refine .listed hopen (fun names => ?_) (List.pairwise_singleton _ _)
      rw [hlisted, List.mem_singleton, and_iff_left hname]
    · rw [if_neg (mt (isManifestName_iff own).mp hname)]
      change Outcome _ _ _ (.ok (List.map (Location.along location) []))
      refine .listed hopen (fun names => ?_) .nil
      simp [hlisted, hname]
/-- The same holds for each of several entries. -/
theorem outcome_of_mem (entries : List (RawText × Listing))
    (hentries : Listing.entriesAreProper entries = true) :
    ∀ e ∈ entries, ∀ location, Outcome (IsListed e.2 e.1)
      (fun names f => Shows e.2 names (.unreadable f)) location (manifests location e.1 e.2) := by
  match entries with
  | [] => simp
  | (name, l) :: rest =>
    rw [Listing.entriesAreProper, Bool.and_eq_true, Bool.and_eq_true] at hentries
    exact List.forall_mem_cons.mpr ⟨fun location => outcome l hentries.1.2 name location,
      outcome_of_mem rest hentries.2⟩
end

variable {m : Type → Type} [Monad m] [LawfulMonad m]

/-- The search at a location comes from what is listed there. -/
theorem run_manifestFiles (fs : Files m) (location : RawText) :
    (manifestFiles fs location).run =
      manifests location (Location.fileName location) <$> fs.listing location :=
  (map_eq_pure_bind _ _).symm

/-- Whatever files there are, the search at a location comes from what is listed there. If that is a
directory whose entries have proper names, the locations of the manifests in it are listed and no
others, each once and in the order of a depth-first walk that goes through every directory in the
order of names; or the first place on this walk that cannot be looked into is reported, if there is
one. Nothing is asked of the name of the directory itself. -/
theorem manifestFiles_outcome (fs : Files m) (location : RawText) :
    (manifestFiles fs location).run =
      manifests location (Location.fileName location) <$> fs.listing location ∧
    ∀ entries, (Listing.directory entries).isProper = true →
      Outcome (IsManifestIn (.directory entries))
        (fun names f => Shows (.directory entries) names (.unreadable f)) location
        (manifests location (Location.fileName location) (.directory entries)) ∧
      ∀ found, manifests location (Location.fileName location) (.directory entries) = .ok found →
        found.Nodup := by
  refine ⟨run_manifestFiles fs location, fun entries hproper => ?_⟩
  have houtcome := (outcome _ hproper (Location.fileName location) location).congr
    (fun names => isListed_iff) (fun names f => Iff.rfl)
  refine ⟨houtcome, fun found hfound => ?_⟩
  rw [hfound] at houtcome
  cases houtcome with
  | @listed paths hopen hmem hordered =>
    have hnames : ∀ names ∈ paths, names ≠ [] ∧ ∀ n ∈ names, Location.isName n = true := by
      intro names hin
      obtain ⟨⟨hplace, -⟩, -⟩ := (hmem names).mp hin
      refine ⟨?_, hplace.isName hproper⟩
      rintro rfl
      cases hplace
    refine List.Nodup.map_on ?_ (hordered.imp ComesBefore.ne)
    intro p hp q hq heq
    obtain ⟨hne, hp⟩ := hnames p hp
    obtain ⟨hne', hq⟩ := hnames q hq
    exact Location.along_injective hne hne' hp hq heq

/-- Manifests and a hidden entry. -/
def webEntries : List (RawText × Listing) :=
  [(".env.yaml", .file), ("b.yaml", .file), ("a.yaml", .file)]

/-- A directory with these in it, with a further manifest, and with files of other kinds. What is
hidden need not be readable. -/
def siteEntries : List (RawText × Listing) :=
  [("web.yml", .file), (".git", .unreadable .notDirectory), ("web", .directory webEntries),
    ("notes.txt", .file), ("app.yaml.d", .directory [])]

/-- Files of which nothing is known but this directory. -/
def site : Files Id where
  kind _ := some .directory
  read _ := .error .notFound
  listing _ := .directory siteEntries
  write _ _ := .error .notFound

/-- The directory is gone into although it is hidden, and `web` comes before `web.yml`. -/
theorem siteEntries_listed :
    (Listing.directory siteEntries).isProper = true ∧
    (manifestFiles site ".site").run =
      .ok [".site/web/a.yaml", ".site/web/b.yaml", ".site/web.yml"] ∧
    Outcome (IsManifestIn (.directory siteEntries))
      (fun names f => Shows (.directory siteEntries) names (.unreadable f)) ".site"
      (manifests ".site" (Location.fileName ".site") (.directory siteEntries)) := by
  have hproper : (Listing.directory siteEntries).isProper = true := by decide +kernel
  obtain ⟨hrun, houtcome⟩ := manifestFiles_outcome site ".site"
  refine ⟨hproper, hrun.trans ?_, (houtcome siteEntries hproper).1⟩
  have hsite : visibleEntries siteEntries =
      ([("app.yaml.d", .directory []), ("notes.txt", .file), ("web", .directory webEntries),
        ("web.yml", .file)] : List (RawText × Listing)) := by cbv
  have hweb : visibleEntries webEntries =
      ([("a.yaml", .file), ("b.yaml", .file)] : List (RawText × Listing)) := by cbv
  have hnone : visibleEntries [] = [] := by cbv
  change manifests ".site" (Location.fileName ".site") (.directory siteEntries) = _
  rw [manifests_directory, hsite]
  simp only [List.mapM_cons, List.mapM_nil, manifests_directory, hweb, hnone]
  decide +kernel

/-- A name that begins with a dot and is no text. -/
def strayDirectory : RawText := ⟨[0x2E, 0xFF]⟩

/-- A name that ends as those of manifests do and is no text. -/
def strayFile : RawText := ⟨0xFF :: (RawText.ofText ".yaml").bytes⟩

/-- A directory with these two names. -/
def strayEntries : List (RawText × Listing) :=
  [(strayDirectory, .directory [("a.yaml", .file)]), (strayFile, .file)]

/-- A manifest two directories down. -/
def nestedTree : FileTree :=
  .directory [("app", .directory [("environments", .directory [("x.yaml", .file (some "kind: App"))])])]

/-- A way to the outer directory, by which the location of the inner one has too many bytes. -/
def longWay : RawText :=
  ⟨(List.replicate 2040 [Location.dot, Location.slash]).flatten ++ (RawText.ofText "app").bytes⟩

/-- The inner directory is there, but it cannot be read by its location. -/
theorem listing_longWay :
    nestedTree.listing longWay = .directory [("environments", .unreadable .nameTooLong)] := by
  have hsplit : ∀ (n : Nat) (rest : List UInt8),
      Text.splitAt Location.slash
        ((List.replicate n [Location.dot, Location.slash]).flatten ++ rest) =
      List.replicate n [Location.dot] ++ Text.splitAt Location.slash rest := by
    intro n rest
    induction n with
    | zero => rfl
    | succ n ih => exact congrArg ([Location.dot] :: ·) ih
  have hdots : ∀ (n : Nat) (names : List RawText),
      nestedTree.walk ((List.replicate n [Location.dot]).map RawText.mk ++ names) =
        nestedTree.walk names := by
    intro n names
    induction n with
    | zero => rfl
    | succ n ih => exact ih
  have hfault : FileTree.fault? longWay = none := by decide +kernel
  have hnear : ¬FileTree.locationLimit ≤ longWay.bytes.length := by decide +kernel
  have hfar : FileTree.locationLimit ≤ (Location.entry longWay "environments").bytes.length := by
    decide +kernel
  have hfound : nestedTree.find longWay =
      .ok (.directory [("environments", .directory [("x.yaml", .file (some "kind: App"))])]) := by
    rw [FileTree.find, hfault, FileTree.namesOf, longWay, hsplit, List.map_append, hdots]
    rfl
  rw [FileTree.listing, hfound]
  simp only [FileTree.toListing, FileTree.toListings, if_neg hnear, if_pos hfar]

/-- Not all files are listed that end in `.yaml` and are in no place that begins with a dot, and
others are listed too: names that are no texts neither hide nor make a manifest. And where a
directory cannot be read by its location, nothing is listed at all. -/
theorem strayEntries_listed :
    ((Listing.directory strayEntries).isProper = true ∧
      strayDirectory.bytes.head? = some Location.dot ∧
      (RawText.ofText ".yaml").bytes <:+ strayFile.bytes ∧
      strayFile.bytes.head? ≠ some Location.dot ∧
      manifests "site" "site" (.directory strayEntries) =
        .ok [Location.along "site" [strayDirectory, "a.yaml"]]) ∧
    nestedTree.kind "app/environments/x.yaml" = some .file ∧
      ((manifestFiles FileTree.files longWay).run.run nestedTree).1 =
        .error (unreadable (Location.along longWay ["environments"]) .nameTooLong) := by
  have hstray : visibleEntries strayEntries = strayEntries := by cbv
  have hinner : visibleEntries [(RawText.ofText "a.yaml", Listing.file)] =
      [(RawText.ofText "a.yaml", Listing.file)] := by cbv
  refine ⟨⟨?_, ?_, ?_, ?_, ?_⟩, ?_, ?_⟩
  · decide +kernel
  · decide +kernel
  · decide +kernel
  · decide +kernel
  · rw [manifests_directory, hstray]
    simp only [strayEntries, List.mapM_cons, List.mapM_nil, manifests_directory, hinner]
    decide +kernel
  · decide +kernel
  · have hnested : visibleEntries
        [(RawText.ofText "environments", Listing.unreadable .nameTooLong)] =
        [(RawText.ofText "environments", Listing.unreadable .nameTooLong)] := by cbv
    have hrun : ∀ (tree : FileTree) (location : RawText),
        ((manifestFiles FileTree.files location).run.run tree).1 =
          manifests location (Location.fileName location) (tree.listing location) :=
      fun _ _ => rfl
    rw [hrun, listing_longWay, manifests_directory, hnested, List.mapM_cons, manifests,
      Location.along, List.foldl_cons, List.foldl_nil]
    rfl

end Input

end ManifestRules
