import WhisperNet.Lib.Reader

/-!
# Filesystem paths

`std::filesystem::path` on POSIX, as its documentation describes it: a native string, iterated as
a root directory, filenames and a final empty element after a trailing slash; `operator/=`; and
`lexically_normal`.

* `elements_ofElements` — appending the elements of a laid out path one by one and iterating the
  result gives the elements back.
* `ofElements_elements_normal` — a path in normal form is rebuilt from its elements.
-/

open Bin

/-- A path is its native string. -/
structure FsPath where
  native : Bytes
  deriving DecidableEq, Repr

namespace FsPath

/-- One element of a path. -/
abbrev Name := Bytes

/-- `'/'` -/
def slash : UInt8 := 47

/-- `'.'` -/
def dot : UInt8 := 46

/-! ## Iteration -/

/-- The filenames in a string: what stands between separators. -/
def split (bs : Bytes) : List Name := (bs.splitOn slash).filter (· ≠ [])

def names (p : FsPath) : List Name := split p.native

/-- The path starts with a root directory. -/
def isAbsolute (p : FsPath) : Bool := p.native.head? == some slash

def endsWithSlash (p : FsPath) : Bool := p.native.getLast? == some slash

/-- The elements a path with this root, these filenames and this ending iterates over. -/
def layout (root : Bool) (ns : List Name) (trail : Bool) : List Name :=
  (if root then [[slash]] else []) ++ ns ++ (if trail then [[]] else [])

/-- `begin()` to `end()`. -/
def elements (p : FsPath) : List Name :=
  layout p.isAbsolute p.names (p.endsWithSlash && !p.names.isEmpty)

/-! ## Appending -/

/-- `operator/=`: an absolute path replaces, anything else is appended after one separator. -/
def append (p q : FsPath) : FsPath :=
  if q.isAbsolute then q
  else if p.native.isEmpty || p.endsWithSlash then ⟨p.native ++ q.native⟩
  else ⟨p.native ++ slash :: q.native⟩

/-- The path built by appending elements one by one to an empty path. -/
def ofElements (es : List Name) : FsPath := es.foldl (fun p e => p.append ⟨e⟩) ⟨[]⟩

/-- `remove_filename`: what is behind the last separator goes. -/
def removeFilename (p : FsPath) : FsPath :=
  ⟨(p.native.reverse.dropWhile (· ≠ slash)).reverse⟩

/-! ## Normal form -/

/-- One filename against the stack of those kept so far: `.` goes, `..` takes the filename before
it along, and has nothing to take right after a root directory. -/
def normStep (root : Bool) (kept : List Name) (n : Name) : List Name :=
  if n = [dot] then kept
  else if n = [dot, dot] then
    match kept with
    | [] => if root then [] else [n]
    | k :: rest => if k = [dot, dot] then n :: kept else rest
  else n :: kept

def normNames (root : Bool) (ns : List Name) : List Name := (ns.foldl (normStep root) []).reverse

/-- `lexically_normal`. A separator stays at the end after a trailing separator, a `.` or a `..`
that was removed, unless it would follow a `..`. -/
def lexicallyNormal (p : FsPath) : FsPath :=
  let ns := normNames p.isAbsolute p.names
  let ending := p.endsWithSlash || p.names.getLast? == some [dot] ||
    p.names.getLast? == some [dot, dot]
  if p.native = [] then p
  else if ns = [] then (if p.isAbsolute then ⟨[slash]⟩ else ⟨[dot]⟩)
  else ofElements (layout p.isAbsolute ns (ending && !(ns.getLast? == some [dot, dot])))

/-! ## Splitting -/

/-- A filename: nonempty and without a separator. -/
def IsName (n : Name) : Prop := n ≠ [] ∧ slash ∉ n

@[simp] theorem split_nil : split [] = [] := rfl

@[simp] theorem split_slash (bs : Bytes) : split (slash :: bs) = split bs := by
  simp [split, List.splitOn_cons_eq_if_modifyHead]

theorem split_name {n : Name} (h : IsName n) : split n = [n] := by
  rw [split, List.splitOn_eq_singleton h.2]
  simp [h.1]

theorem split_name_slash {n : Name} (h : IsName n) (bs : Bytes) :
    split (n ++ slash :: bs) = n :: split bs := by
  rw [split, List.splitOn_append_cons_self_of_not_mem h.2, split]
  simp [h.1]

theorem not_mem_of_mem_splitOn {bs : Bytes} {n : Name} (h : n ∈ bs.splitOn slash) : slash ∉ n := by
  induction bs generalizing n with
  | nil =>
    rw [List.splitOn_nil, List.mem_singleton] at h
    simp [h]
  | cons b bs ih =>
    rw [List.splitOn_cons_eq_if_modifyHead] at h
    split_ifs at h with hb
    · rcases List.mem_cons.1 h with rfl | h
      · simp
      · exact ih h
    · have hb' : slash ≠ b := fun heq => hb (by simp [heq])
      cases hs : bs.splitOn slash with
      | nil => exact absurd hs (List.splitOn_ne_nil slash bs)
      | cons m ms =>
        rw [hs] at h ih
        rcases List.mem_cons.1 h with rfl | h
        · simpa [hb'] using ih List.mem_cons_self
        · exact ih (List.mem_cons_of_mem _ h)

theorem isName_of_mem_split {bs : Bytes} {n : Name} (h : n ∈ split bs) : IsName n := by
  rw [split, List.mem_filter] at h
  exact ⟨by simpa using h.2, not_mem_of_mem_splitOn h.1⟩

/-- The names of a string of names, each but the first after a separator. -/
theorem split_join {n : Name} {ns : List Name} (hn : IsName n) (hns : ∀ m ∈ ns, IsName m)
    (trail : Bool) :
    split (n ++ (ns.flatMap (slash :: ·) ++ if trail then [slash] else [])) = n :: ns := by
  induction ns generalizing n with
  | nil =>
    cases trail with
    | false => simpa using split_name hn
    | true => simpa using split_name_slash hn []
  | cons m ns ih =>
    have hrest := ih (hns m List.mem_cons_self) fun k hk => hns k (List.mem_cons_of_mem _ hk)
    rw [List.flatMap_cons, List.append_assoc, List.cons_append, split_name_slash hn, hrest]

/-! ## Building -/

/-- The string of a path whose first filename is `n`. -/
def render (root : Bool) (n : Name) (ns : List Name) (trail : Bool) : Bytes :=
  (if root then [slash] else []) ++
    (n ++ (ns.flatMap (slash :: ·) ++ if trail then [slash] else []))

theorem IsName.head {n : Name} (h : IsName n) : n.head? ≠ some slash := fun hn =>
  h.2 (List.mem_of_mem_head? hn)

theorem IsName.getLast {n : Name} (h : IsName n) : n.getLast? ≠ some slash := fun hn =>
  h.2 (List.mem_of_getLast? hn)

theorem getLast?_append_name (bs : Bytes) {n : Name} (h : IsName n) :
    (bs ++ n).getLast? ≠ some slash := by
  rw [List.getLast?_append_of_ne_nil _ h.1]
  exact h.getLast

/-- Appending a filename to a path that ends in one puts a separator between them. -/
theorem append_name {p : FsPath} {n : Name} (hp : p.native ≠ [])
    (hend : p.native.getLast? ≠ some slash) (hn : n.head? ≠ some slash) :
    p.append ⟨n⟩ = ⟨p.native ++ slash :: n⟩ := by
  have habs : (FsPath.mk n).isAbsolute = false := by simpa [isAbsolute] using hn
  have hclosed : (p.native.isEmpty || p.endsWithSlash) = false := by
    simp [endsWithSlash, hp, hend]
  rw [append, habs, hclosed]
  rfl

/-- Appending a filename to an empty path or to a root directory. -/
theorem append_first {root : Bool} {n : Name} (hn : IsName n) :
    (FsPath.mk (if root then [slash] else [])).append ⟨n⟩ =
      ⟨(if root then [slash] else []) ++ n⟩ := by
  have habs : (FsPath.mk n).isAbsolute = false := by simpa [isAbsolute] using hn.head
  rw [append, habs]
  cases root <;> rfl

/-- Appending filenames to a path that ends in one. -/
theorem foldl_append_names (ns : List Name) (hns : ∀ m ∈ ns, IsName m) (bs : Bytes)
    (hbs : bs ≠ []) (hend : bs.getLast? ≠ some slash) :
    ns.foldl (fun p e => FsPath.append p ⟨e⟩) ⟨bs⟩ = ⟨bs ++ ns.flatMap (slash :: ·)⟩ := by
  induction ns generalizing bs with
  | nil => simp
  | cons n ns ih =>
    have hn := hns n List.mem_cons_self
    have hlast : (bs ++ slash :: n).getLast? ≠ some slash := by
      have := getLast?_append_name (bs ++ [slash]) hn
      rwa [List.append_assoc, List.singleton_append] at this
    rw [List.foldl_cons, append_name hbs hend hn.head,
      ih (fun m hm => hns m (List.mem_cons_of_mem _ hm)) _ (by simp) hlast]
    simp

/-- A name or a join of names does not end in a separator. -/
theorem getLast?_join {n : Name} {ns : List Name} (hn : IsName n) (hns : ∀ m ∈ ns, IsName m)
    (bs : Bytes) : (bs ++ (n ++ ns.flatMap (slash :: ·))).getLast? ≠ some slash := by
  rcases List.eq_nil_or_concat ns with rfl | ⟨ns, m, rfl⟩
  · simpa using getLast?_append_name bs hn
  · have hm := hns m (by simp)
    have := getLast?_append_name (bs ++ (n ++ (ns.flatMap (slash :: ·) ++ [slash]))) hm
    simpa [List.append_assoc] using this

/-- Appending the elements of a layout one by one writes its string. -/
theorem ofElements_layout (root : Bool) {n : Name} {ns : List Name} (hn : IsName n)
    (hns : ∀ m ∈ ns, IsName m) (trail : Bool) :
    ofElements (layout root (n :: ns) trail) = ⟨render root n ns trail⟩ := by
  have hroot : (if root then [[slash]] else []).foldl (fun p e => FsPath.append p ⟨e⟩) ⟨[]⟩ =
      ⟨if root then [slash] else []⟩ := by cases root <;> rfl
  have hmain : (layout root (n :: ns) false).foldl (fun p e => FsPath.append p ⟨e⟩) ⟨[]⟩ =
      ⟨(if root then [slash] else []) ++ (n ++ ns.flatMap (slash :: ·))⟩ := by
    have hlay : layout root (n :: ns) false = (if root then [[slash]] else []) ++ n :: ns := by
      simp [layout]
    rw [hlay, List.foldl_append, hroot, List.foldl_cons, append_first hn,
      foldl_append_names ns hns _ (by simp [hn.1]) (getLast?_append_name _ hn), List.append_assoc]
  cases trail with
  | false => rw [ofElements, hmain]; simp [render]
  | true =>
    have hsplit : layout root (n :: ns) true = layout root (n :: ns) false ++ [[]] := by
      simp [layout]
    rw [ofElements, hsplit, List.foldl_append, hmain, List.foldl_cons, List.foldl_nil,
      append_name (by simp [hn.1]) (getLast?_join hn hns _) (by simp)]
    simp [render]

/-- **Building and iterating.** -/
theorem elements_ofElements (root : Bool) {n : Name} {ns : List Name} (hn : IsName n)
    (hns : ∀ m ∈ ns, IsName m) (trail : Bool) :
    (ofElements (layout root (n :: ns) trail)).elements = layout root (n :: ns) trail := by
  rw [ofElements_layout root hn hns trail]
  have habs : (FsPath.mk (render root n ns trail)).isAbsolute = root := by
    cases root with
    | true => rfl
    | false =>
      have hhead : (n ++ (ns.flatMap (slash :: ·) ++ if trail then [slash] else [])).head? =
          n.head? := List.head?_append_of_ne_nil _ hn.1
      simp only [isAbsolute, render, Bool.false_eq_true, if_false, List.nil_append]
      rw [hhead]
      simpa using hn.head
  have hnames : (FsPath.mk (render root n ns trail)).names = n :: ns := by
    have hjoin := split_join hn hns trail
    cases root with
    | true =>
      show split (slash :: _) = _
      rw [split_slash]
      exact hjoin
    | false => exact hjoin
  have hend : (FsPath.mk (render root n ns trail)).endsWithSlash = trail := by
    cases trail with
    | true => simp [endsWithSlash, render]
    | false =>
      have := getLast?_join hn hns (if root then [slash] else [])
      simpa [endsWithSlash, render] using this
  rw [elements, habs, hnames, hend]
  simp

theorem elements_render (root : Bool) {n : Name} {ns : List Name} (hn : IsName n)
    (hns : ∀ m ∈ ns, IsName m) (trail : Bool) :
    (FsPath.mk (render root n ns trail)).elements = layout root (n :: ns) trail := by
  rw [← ofElements_layout root hn hns trail, elements_ofElements root hn hns trail]

/-! ## The folder of a path -/

section Folder

variable {root : Bool} {n m : Name} {ns : List Name}

theorem render_concat : render root n (ns ++ [m]) false = render root n ns true ++ m := by
  simp [render]

theorem removeFilename_name (hm : IsName m) :
    removeFilename ⟨render root n (ns ++ [m]) false⟩ = ⟨render root n ns true⟩ := by
  have hskip : ∀ c ∈ m.reverse, decide (c ≠ slash) = true := by
    intro c hc
    refine decide_eq_true fun hslash => hm.2 ?_
    rw [← hslash]
    exact List.mem_reverse.mp hc
  obtain ⟨bs, hbs⟩ : ∃ bs, render root n ns true = bs ++ [slash] :=
    ⟨(if root then [slash] else []) ++ (n ++ ns.flatMap (slash :: ·)), by simp [render]⟩
  rw [render_concat, removeFilename, List.reverse_append, List.dropWhile_append_of_pos hskip, hbs]
  simp

theorem removeFilename_trail :
    removeFilename ⟨render root n ns true⟩ = ⟨render root n ns true⟩ := by
  obtain ⟨bs, hbs⟩ : ∃ bs, render root n ns true = bs ++ [slash] :=
    ⟨(if root then [slash] else []) ++ (n ++ ns.flatMap (slash :: ·)), by simp [render]⟩
  rw [removeFilename, hbs]
  simp

theorem append_trail (hm : IsName m) :
    (FsPath.mk (render root n ns true)).append ⟨m⟩ = ⟨render root n (ns ++ [m]) false⟩ := by
  have habs : (FsPath.mk m).isAbsolute = false := by simpa [isAbsolute] using hm.head
  have hend : (FsPath.mk (render root n ns true)).endsWithSlash = true := by
    simp [endsWithSlash, render]
  rw [append, habs, hend, Bool.or_true, render_concat]
  rfl

end Folder

/-! ## Normal forms are rebuilt from their elements -/

theorem mem_normStep {root : Bool} {kept : List Name} {n m : Name}
    (h : m ∈ normStep root kept n) : m ∈ kept ∨ m = n := by
  unfold normStep at h
  by_cases h1 : n = [dot]
  · rw [if_pos h1] at h
    exact Or.inl h
  · rw [if_neg h1] at h
    by_cases h2 : n = [dot, dot]
    · rw [if_pos h2] at h
      cases kept with
      | nil =>
        cases root with
        | true => exact absurd h List.not_mem_nil
        | false => exact Or.inr (List.mem_singleton.1 h)
      | cons k rest =>
        dsimp only at h
        split_ifs at h with hk
        · exact (List.mem_cons.1 h).symm
        · exact Or.inl (List.mem_cons_of_mem _ h)
    · rw [if_neg h2] at h
      exact (List.mem_cons.1 h).symm

theorem mem_normNames {root : Bool} {ns : List Name} {m : Name} (h : m ∈ normNames root ns) :
    m ∈ ns := by
  have hfold : ∀ (ns kept : List Name), m ∈ ns.foldl (normStep root) kept → m ∈ kept ∨ m ∈ ns := by
    intro ns
    induction ns with
    | nil => exact fun kept h => Or.inl h
    | cons n ns ih =>
      intro kept h
      rcases ih _ h with h | h
      · rcases mem_normStep h with h | rfl
        · exact Or.inl h
        · exact Or.inr List.mem_cons_self
      · exact Or.inr (List.mem_cons_of_mem _ h)
  rcases hfold ns [] (List.mem_reverse.1 h) with h | h
  · exact absurd h List.not_mem_nil
  · exact h

/-- **A path in normal form is its elements appended to an empty path.** -/
theorem ofElements_elements_normal (p : FsPath) :
    ofElements p.lexicallyNormal.elements = p.lexicallyNormal := by
  unfold lexicallyNormal
  dsimp only
  split_ifs with hnil hns habs
  · obtain ⟨bs⟩ := p
    subst hnil
    rfl
  · rfl
  · rfl
  · obtain ⟨n, ns, hcons⟩ := List.exists_cons_of_ne_nil hns
    have hname : ∀ m ∈ normNames p.isAbsolute p.names, IsName m := fun m hm =>
      isName_of_mem_split (mem_normNames hm)
    rw [hcons] at hname ⊢
    rw [elements_ofElements _ (hname n List.mem_cons_self)
      fun m hm => hname m (List.mem_cons_of_mem _ hm)]

end FsPath
