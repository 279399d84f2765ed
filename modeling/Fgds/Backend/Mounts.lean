import Mathlib.Tactic
import Fgds.Backend.Paths

/-!
# The file system of a path

`get_fstype` looks for the mount point of a path in `/proc/mounts`: the longest one that the
path starts with, as a string. A mount point such as `/data` is also a prefix of `/data2/cache`.

* `best_spec`: what the loop over the lines finds;
* `isPrefix_of_ancestor`: the mount points that contain a path are prefixes of it;
* `fstype_exact_iff`: the mount chosen is the longest that contains the path if and only if every
  mount point that is only a string prefix is shorter than one that contains the path;
* `fstype_sibling`: `/data` is chosen for `/data2/cache`.
-/

namespace Fgds.Backend

/-! ## `get_fstype` -/

/-- The characters at which `str.split()` splits. -/
def isPySpace (c : Char) : Bool :=
  let n := c.toNat
  (9 ≤ n && n ≤ 13) || (28 ≤ n && n ≤ 32) || n == 0x85 || n == 0xa0 || n == 0x1680 ||
    (0x2000 ≤ n && n ≤ 0x200a) || n == 0x2028 || n == 0x2029 || n == 0x202f || n == 0x205f ||
    n == 0x3000

/-- `line.split()` -/
def pySplit (line : Str) : List Str := (line.splitOnP isPySpace).filter (· ≠ [])

structure Mount where
  mountPoint : Str
  fstype : Str
  deriving DecidableEq

/-- Lines with less than three parts are skipped. -/
def parseMount (line : Str) : Option Mount :=
  match pySplit line with
  | _ :: mountPoint :: fstype :: _ => some ⟨mountPoint, fstype⟩
  | _ => none

def mounts (lines : List Str) : List Mount := lines.filterMap parseMount

/-- One line of the loop: `best` is `best_match` with `best_fstype`. -/
def matchMount (path : Str) (best m : Mount) : Mount :=
  if m.mountPoint <+: path ∧ best.mountPoint.length < m.mountPoint.length then m else best

def bestMount (lines : List Str) (path : Str) : Mount :=
  (mounts lines).foldl (matchMount path) ⟨[], []⟩

/-- The lines are those of `/proc/mounts`; `none` is the `RuntimeError`. -/
def getFstype (lines : List Str) (path : Str) : Option Str :=
  if (bestMount lines path).fstype = [] then none else some (bestMount lines path).fstype

/-! ## Paths by components -/

def components (path : Str) : List Str := (path.splitOnP (· == '/')).filter (· ≠ [])

def absText : List Str → Str
  | [] => ['/']
  | cs => cs.flatMap ('/' :: ·)

/-- An absolute path in normal form: one slash before each component, and no `.` and `..`. -/
def AbsNormal (path : Str) : Prop :=
  absText (components path) = path ∧ ['.'] ∉ components path ∧ ['.', '.'] ∉ components path

/-- The mount point is the path or one of its ancestors. -/
def Ancestor (mountPoint path : Str) : Prop := components mountPoint <+: components path

instance (path : Str) : Decidable (AbsNormal path) := inferInstanceAs (Decidable (_ ∧ _ ∧ _))

instance (mountPoint path : Str) : Decidable (Ancestor mountPoint path) :=
  inferInstanceAs (Decidable (_ <+: _))

/-- The mount found is the deepest one that contains the path, and its type is returned. -/
def PicksMount (lines : List Str) (path : Str) : Prop :=
  ∃ m ∈ mounts lines, Ancestor m.mountPoint path ∧
    (∀ other ∈ mounts lines, Ancestor other.mountPoint path →
      (components other.mountPoint).length ≤ (components m.mountPoint).length) ∧
    bestMount lines path = m ∧ getFstype lines path = some m.fstype

/-- Every mount point that the path merely starts with is shorter than one that contains it. -/
def NoLongerSibling (lines : List Str) (path : Str) : Prop :=
  ∀ m ∈ mounts lines, m.mountPoint <+: path → ¬ Ancestor m.mountPoint path →
    ∃ a ∈ mounts lines, Ancestor a.mountPoint path ∧
      m.mountPoint.length < a.mountPoint.length

instance (lines : List Str) (path : Str) : Decidable (PicksMount lines path) :=
  inferInstanceAs (Decidable (∃ _ ∈ _, _))

instance (lines : List Str) (path : Str) : Decidable (NoLongerSibling lines path) :=
  inferInstanceAs (Decidable (∀ _ ∈ _, _ → _))

/-! ## The loop -/

/-- What has been found is the start value or one of the mounts, and no mount that the path
starts with is longer. -/
theorem best_spec (path : Str) (ms : List Mount) (best : Mount) :
    (ms.foldl (matchMount path) best = best ∨
      ms.foldl (matchMount path) best ∈ ms ∧
        (ms.foldl (matchMount path) best).mountPoint <+: path) ∧
      best.mountPoint.length ≤ (ms.foldl (matchMount path) best).mountPoint.length ∧
      ∀ m ∈ ms, m.mountPoint <+: path →
        m.mountPoint.length ≤ (ms.foldl (matchMount path) best).mountPoint.length := by
  induction ms generalizing best with
  | nil => simp
  | cons m ms ih =>
    obtain ⟨hfound, hstart, hmax⟩ := ih (matchMount path best m)
    rw [List.foldl_cons]
    by_cases hm : m.mountPoint <+: path ∧ best.mountPoint.length < m.mountPoint.length
    · rw [matchMount, if_pos hm] at hfound hstart hmax ⊢
      refine ⟨.inr ?_, by omega, ?_⟩
      · rcases hfound with heq | ⟨hmem, hpre⟩
        · rw [heq]
          exact ⟨List.mem_cons_self, hm.1⟩
        · exact ⟨List.mem_cons_of_mem _ hmem, hpre⟩
      · intro x hx hpre
        rcases List.mem_cons.mp hx with rfl | hold
        · exact hstart
        · exact hmax x hold hpre
    · rw [matchMount, if_neg hm] at hfound hstart hmax ⊢
      refine ⟨?_, hstart, ?_⟩
      · exact hfound.imp_right fun h => ⟨List.mem_cons_of_mem _ h.1, h.2⟩
      · intro x hx hpre
        rcases List.mem_cons.mp hx with rfl | hold
        · have := not_and.mp hm hpre
          omega
        · exact hmax x hold hpre

theorem parseMount_fstype {line : Str} {m : Mount} (h : parseMount line = some m) :
    m.fstype ≠ [] := by
  unfold parseMount at h
  split at h
  · next dev point fstype rest hsplit =>
    obtain rfl := Option.some.inj h
    have hmem : fstype ∈ pySplit line := by simp [hsplit]
    simpa using (List.mem_filter.mp hmem).2
  · cases h

/-- A mount that the path starts with is found, and its type is returned. -/
theorem bestMount_found {lines : List Str} {path : Str}
    (hsome : ∃ m ∈ mounts lines, m.mountPoint <+: path ∧ m.mountPoint ≠ []) :
    bestMount lines path ∈ mounts lines ∧ (bestMount lines path).mountPoint <+: path ∧
      getFstype lines path = some (bestMount lines path).fstype := by
  obtain ⟨m, hm, hpre, hne⟩ := hsome
  obtain ⟨hfound, -, hmax⟩ := best_spec path (mounts lines) ⟨[], []⟩
  rcases hfound with hnone | ⟨hmem, hbest⟩
  · have hlen := hmax m hm hpre
    rw [hnone] at hlen
    exact absurd (List.eq_nil_of_length_eq_zero (Nat.le_zero.mp hlen)) hne
  · refine ⟨hmem, hbest, ?_⟩
    obtain ⟨line, -, hline⟩ := List.mem_filterMap.mp hmem
    rw [getFstype, bestMount, if_neg (parseMount_fstype hline)]

theorem bestMount_longest {lines : List Str} {path : Str} {m : Mount} (hm : m ∈ mounts lines)
    (hpre : m.mountPoint <+: path) :
    m.mountPoint.length ≤ (bestMount lines path).mountPoint.length :=
  (best_spec path (mounts lines) ⟨[], []⟩).2.2 m hm hpre

/-! ## Components and prefixes -/

theorem absText_mono {cs ds : List Str} (h : cs <+: ds) : absText cs <+: absText ds := by
  obtain ⟨rest, rfl⟩ := h
  cases cs with
  | nil =>
    cases rest with
    | nil => exact List.prefix_rfl
    | cons d rest => exact ⟨d ++ rest.flatMap ('/' :: ·), rfl⟩
  | cons c cs =>
    refine ⟨rest.flatMap ('/' :: ·), ?_⟩
    simp [absText]

theorem isPrefix_of_ancestor {point path : Str} (hpoint : AbsNormal point)
    (hpath : AbsNormal path) (h : Ancestor point path) : point <+: path := by
  rw [← hpoint.1, ← hpath.1]
  exact absText_mono h

/-- Of two mount points that contain a path, the one that is not the longer text has not more
components. -/
theorem components_length_le {a b path : Str} (ha : AbsNormal a) (hb : AbsNormal b)
    (hapath : Ancestor a path) (hbpath : Ancestor b path) (hlen : a.length ≤ b.length) :
    (components a).length ≤ (components b).length := by
  rcases List.prefix_or_prefix_of_prefix hapath hbpath with hab | hba
  · exact hab.length_le
  · have htext : b <+: a := isPrefix_of_ancestor hb ha hba
    have heq : b = a := htext.eq_of_length (Nat.le_antisymm htext.length_le hlen)
    rw [heq]

/-- For every table of absolute mount points with `/` among them. -/
theorem fstype_exact_iff (lines : List Str) (path : Str) (hpath : AbsNormal path)
    (htable : ∀ m ∈ mounts lines, AbsNormal m.mountPoint)
    (hroot : ∃ m ∈ mounts lines, m.mountPoint = ['/']) :
    PicksMount lines path ↔ NoLongerSibling lines path := by
  have hslash : ['/'] <+: path := by
    have hanc : Ancestor ['/'] path := List.nil_prefix
    exact isPrefix_of_ancestor (by decide) hpath hanc
  obtain ⟨hmem, hpre, hret⟩ : bestMount lines path ∈ mounts lines ∧
      (bestMount lines path).mountPoint <+: path ∧
      getFstype lines path = some (bestMount lines path).fstype := by
    obtain ⟨root, hin, heq⟩ := hroot
    exact bestMount_found ⟨root, hin, heq ▸ hslash, by simp [heq]⟩
  constructor
  · rintro ⟨m, -, hanc, -, rfl, -⟩ x hx hxpre hxnot
    refine ⟨_, hmem, hanc, Nat.lt_of_le_of_ne (bestMount_longest hx hxpre) ?_⟩
    -- two prefixes of one length are one
    intro hlen
    have heq := (List.prefix_of_prefix_length_le hxpre hpre hlen.le).eq_of_length hlen
    exact hxnot (heq ▸ hanc)
  · intro hno
    have hanc : Ancestor (bestMount lines path).mountPoint path := by
      by_contra hnot
      obtain ⟨a, ha, haanc, hlt⟩ := hno _ hmem hpre hnot
      have hle := bestMount_longest ha (isPrefix_of_ancestor (htable a ha) hpath haanc)
      omega
    refine ⟨_, hmem, hanc, ?_, rfl, hret⟩
    intro other hother hotheranc
    exact components_length_le (htable other hother) (htable _ hmem) hotheranc hanc
      (bestMount_longest hother (isPrefix_of_ancestor (htable other hother) hpath hotheranc))

/-- The sibling `/data` is shorter than `/data2`, which is mounted as well. -/
theorem fstype_exact_data2 :
    PicksMount ["/dev/sda1 / ext4 rw 0 0".toList, "/dev/sdb1 /data xfs rw 0 0".toList,
      "/dev/sdc1 /data2 ext4 rw 0 0".toList] "/data2/cache".toList := by
  exact (fstype_exact_iff _ _ (by decide) (by decide) (by decide)).mpr (by decide)

/-- Without it, the type of `/data` is returned for `/data2/cache`, which is on `/`. -/
theorem fstype_sibling :
    let lines := ["/dev/sda1 / ext4 rw 0 0".toList, "tmpfs /data tmpfs rw 0 0".toList]
    getFstype lines "/data2/cache".toList = some "tmpfs".toList ∧
      ¬ PicksMount lines "/data2/cache".toList := by
  decide

end Fgds.Backend
