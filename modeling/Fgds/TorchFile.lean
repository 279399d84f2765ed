import Mathlib.Tactic
import Fgds.Lib.Runs

/-!
# Sessions of the PyTorch helpers

`pytorch-fgds/fgds_torch.py`: an `FgdsFile` holds a descriptor and a share of the FGDS session
of its device; `_fgds_file_count` counts the shares. Objects are constructed and destroyed by
any threads; the two functions that update the count run under `_file_lock`, everything else is
interleaved step by step.

* `Counted`: the count is the number of objects that hold a session, every open descriptor
  belongs to one object, and no session has been released twice;
* `Object`: what the fields of an object are at each point of its life;
* `sessions_exact`: both hold in every run, and every step opens and closes the library exactly
  where the number of holders leaves and reaches 0.
-/

namespace Fgds.TorchFile

open Fgds.Lib.Runs
open scoped List

/-! ## The count -/

/-- `_fgds_file_count` -/
abbrev Counts := Int → Option Nat

def Counts.get (count : Counts) (d : Int) : Nat := (count d).getD 0

/-- The calls of the library, with what came of them. -/
inductive LibCall where
  | fgdsOpen (d : Int) (ok : Bool)
  | fgdsClose (d : Int) (ok : Bool)
  deriving DecidableEq

/-- What the calls in a step return. -/
structure Outcome where
  /-- `torch.cuda.set_device` and `os.open` -/
  osOpen : Option Nat
  /-- `_load_fgds_bind` -/
  loads : Bool
  /-- `torch.cuda.set_device` in `_fgds_file_constructed` -/
  setDevice : Bool
  opens : Bool
  /-- `fgds_fileid_t(...)` -/
  fileid : Bool
  closes : Bool

/-- The result of a function under the lock: whether it returns, or raises. -/
structure Locked where
  returns : Bool
  count : Counts
  calls : List LibCall

def fgdsFileConstructed (count : Counts) (d : Int) (o : Outcome) : Locked :=
  if o.loads = false then ⟨false, count, []⟩
  else
    let c := count.get d
    let counted := Function.update count d (some (c + 1))
    if c = 0 then
      if o.setDevice = false then ⟨false, count, []⟩
      else if o.opens then ⟨true, counted, [.fgdsOpen d true]⟩
      else ⟨false, count, [.fgdsOpen d false]⟩
    else ⟨true, counted, []⟩

/-- The bindings are loaded already when there is something to release. -/
def fgdsFileDestroyed (count : Counts) (d : Int) (o : Outcome) : Locked :=
  let c := count.get d
  if c = 0 then ⟨true, count, []⟩
  else if c - 1 = 0 then ⟨o.closes, Function.update count d none, [.fgdsClose d o.closes]⟩
  else ⟨true, Function.update count d (some (c - 1)), []⟩

/-! ## Objects -/

/-- Where an object is in `__init__` or `__del__`. -/
inductive Point where
  /-- before `os.open` -/
  | opening
  /-- before `_fgds_file_constructed` -/
  | constructing
  /-- before `self._session_held = True` -/
  | counted
  /-- before `fgds_fileid_t` -/
  | building
  /-- `__init__` has returned -/
  | live
  /-- in the handler, before `_fgds_file_destroyed` -/
  | undoing
  /-- in the handler, before `os.close` -/
  | failing
  /-- `__init__` has raised -/
  | failed
  /-- in `__del__`, before `os.close`, with what the fields were -/
  | deleting (fd : Option Nat) (held : Bool)
  /-- in `__del__`, before `_fgds_file_destroyed` -/
  | releasing
  | gone
  deriving DecidableEq

/-- `FgdsFile` -/
structure FgdsFile where
  deviceId : Int
  fd : Option Nat
  sessionHeld : Bool
  point : Point
  deriving DecidableEq

/-- The object has a share of the session: from the update of the count in
`_fgds_file_constructed` to the one in `_fgds_file_destroyed`. -/
def FgdsFile.holds (f : FgdsFile) : Bool :=
  match f.point with
  | .counted | .building | .live | .undoing | .releasing => true
  | .deleting _ held => held
  | .opening | .constructing | .failing | .failed | .gone => false

/-- The descriptor that the object has to close. -/
def FgdsFile.owned (f : FgdsFile) : List Nat :=
  match f.point with
  | .deleting fd _ => fd.toList
  | _ => f.fd.toList

/-- What one step of an object does. -/
structure Move where
  file : FgdsFile
  count : Counts
  calls : List LibCall
  opened : List Nat
  closed : List Nat
  released : Bool

/-- The next step of `__init__` or `__del__`. -/
def FgdsFile.next (f : FgdsFile) (count : Counts) (o : Outcome) : Move :=
  match f.point with
  | .opening =>
    match o.osOpen with
    | some fd => ⟨{ f with fd := some fd, point := .constructing }, count, [], [fd], [], false⟩
    | none => ⟨{ f with point := .failed }, count, [], [], [], false⟩
  | .constructing =>
    let r := fgdsFileConstructed count f.deviceId o
    ⟨{ f with point := if r.returns then .counted else .failing }, r.count, r.calls, [], [],
      false⟩
  | .counted => ⟨{ f with sessionHeld := true, point := .building }, count, [], [], [], false⟩
  | .building =>
    let point :=
      if o.fileid then .live else if f.sessionHeld then .undoing else .failing
    ⟨{ f with point }, count, [], [], [], false⟩
  | .undoing =>
    -- `fgds_close` may raise, in which case the rest of the handler is skipped
    let r := fgdsFileDestroyed count f.deviceId o
    let file :=
      if r.returns then { f with sessionHeld := false, point := .failing }
      else { f with point := .failed }
    ⟨file, r.count, r.calls, [], [], true⟩
  | .failing => ⟨{ f with fd := none, point := .failed }, count, [], [], f.fd.toList, false⟩
  | .deleting fd held =>
    ⟨{ f with point := if held then .releasing else .gone }, count, [], [], fd.toList, false⟩
  | .releasing =>
    -- `__del__` ignores a `RuntimeError`
    let r := fgdsFileDestroyed count f.deviceId o
    ⟨{ f with point := .gone }, r.count, r.calls, [], [], true⟩
  | .live | .failed | .gone => ⟨f, count, [], [], [], false⟩

/-- `__del__` takes the fields and clears them. -/
def FgdsFile.del (f : FgdsFile) : FgdsFile :=
  { f with fd := none, sessionHeld := false, point := .deleting f.fd f.sessionHeld }

/-! ## Runs -/

/-- The objects, by the order of their construction, the open descriptors, and the objects that
have called `_fgds_file_destroyed`. -/
structure State where
  files : List FgdsFile
  count : Counts
  fds : List Nat
  released : List Nat

inductive Action where
  | construct (d : Int)
  | next (i : Nat) (o : Outcome)
  | del (i : Nat)

def State.move (s : State) (i : Nat) (m : Move) : State where
  files := s.files.set i m.file
  count := m.count
  fds := m.opened ++ s.fds.diff m.closed
  released := if m.released then i :: s.released else s.released

def State.step (s : State) : Action → State
  | .construct d => { s with files := s.files ++ [⟨d, none, false, .opening⟩] }
  | .next i o =>
    match s.files[i]? with
    | some f => s.move i (f.next s.count o)
    | none => s
  | .del i =>
    match s.files[i]? with
    | some f => { s with files := s.files.set i f.del }
    | none => s

/-- The calls of the library in a step. -/
def State.calls (s : State) : Action → List LibCall
  | .next i o =>
    match s.files[i]? with
    | some f => (f.next s.count o).calls
    | none => []
  | _ => []

/-- `os.open` returns a descriptor that is not open, building the file id does not fail, and an
object is finalised once, when `__init__` is over. -/
def Possible (s : State) : Action → Prop
  | .construct _ => True
  | .next i o => i < s.files.length ∧ o.fileid = true ∧ ∀ fd ∈ o.osOpen, fd ∉ s.fds
  | .del i => ∃ f, s.files[i]? = some f ∧ (f.point = .live ∨ f.point = .failed)

def sessions : System State Action where
  init := ⟨[], fun _ => none, [], []⟩
  step := State.step
  possible := Possible

instance (s : State) : ∀ a, Decidable (sessions.possible s a)
  | .construct _ => isTrue trivial
  | .next _ _ => inferInstanceAs (Decidable (_ ∧ _ ∧ ∀ _ ∈ _, _))
  | .del i => decidable_of_iff
      (∃ f ∈ s.files[i]?.toList, f.point = .live ∨ f.point = .failed) (by simp [sessions, Possible])

/-- The number of objects that hold a session on a device. -/
def holders (files : List FgdsFile) (d : Int) : Nat :=
  files.countP fun f => f.holds && f.deviceId == d

/-- What the fields are at each point. Where no method is running, `_session_held` says whether
the object holds a session. -/
def Object (f : FgdsFile) : Prop :=
  match f.point with
  | .opening | .failed | .releasing | .gone => f.fd = none ∧ f.sessionHeld = false
  | .constructing | .counted | .failing => f.fd.isSome ∧ f.sessionHeld = false
  | .building | .live => f.fd.isSome ∧ f.sessionHeld = true
  | .deleting fd held => f.fd = none ∧ f.sessionHeld = false ∧ fd.isSome = held
  | .undoing => False

structure Counted (s : State) : Prop where
  count : ∀ d, s.count.get d = holders s.files d
  objects : ∀ f ∈ s.files, Object f
  fds : s.fds.Perm (s.files.flatMap FgdsFile.owned)
  distinct : s.fds.Nodup
  once : s.released.Nodup
  gone : ∀ i ∈ s.released, ∃ f, s.files[i]? = some f ∧ f.point = .gone

/-- What a step does to the number of holders and to the library. -/
structure StepExact (s : State) (a : Action) : Prop where
  /-- `fgds_open` is called at 0, and raises the number if it succeeds. -/
  opens : ∀ d ok, .fgdsOpen d ok ∈ s.calls a →
    holders s.files d = 0 ∧ holders (s.step a).files d = if ok then 1 else 0
  /-- The number leaves 0 with a successful `fgds_open` only. -/
  leaves : ∀ d, holders s.files d = 0 → holders (s.step a).files d ≠ 0 →
    .fgdsOpen d true ∈ s.calls a
  /-- `fgds_close` is called exactly when the number drops to 0. -/
  closes : ∀ d, (∃ ok, .fgdsClose d ok ∈ s.calls a) ↔
    holders s.files d ≠ 0 ∧ holders (s.step a).files d = 0
  /-- A step of a construction that fails changes no count. -/
  failed : ∀ i o f, a = .next i o → (s.step a).files[i]? = some f →
    f.point = .failing ∨ f.point = .failed → (s.step a).count = s.count
  /-- When the construction has failed, the descriptor that it had is closed. -/
  closed : ∀ i o f g, a = .next i o → s.files[i]? = some f → (s.step a).files[i]? = some g →
    g.point = .failed → ∀ fd ∈ f.fd, fd ∉ (s.step a).fds

/-! ## One step of an object -/

section Moves

variable {f : FgdsFile} {count : Counts} {o : Outcome}

/-- What a step can do to the share of an object. -/
inductive Share (f : FgdsFile) (count : Counts) (o : Outcome) (m : Move) : Prop
  | keeps (share : m.file.holds = f.holds) (hcount : m.count = count)
      (calls : m.calls = [] ∨
        m.calls = [.fgdsOpen f.deviceId false] ∧ count.get f.deviceId = 0)
      (released : m.released = false)
  | takes (before : f.holds = false) (after : m.file.point = .counted)
      (hcount : m.count =
        Function.update count f.deviceId (some (count.get f.deviceId + 1)))
      (calls : m.calls =
        if count.get f.deviceId = 0 then [.fgdsOpen f.deviceId true] else [])
      (released : m.released = false)
  | drops (before : f.point = .releasing) (after : m.file.point = .gone)
      (result : m.count = (fgdsFileDestroyed count f.deviceId o).count)
      (calls : m.calls = (fgdsFileDestroyed count f.deviceId o).calls)
      (released : m.released = true)

theorem get_update (count : Counts) (d e : Int) (v : Option Nat) :
    Counts.get (Function.update count d v) e = if e = d then v.getD 0 else count.get e := by
  by_cases h : e = d
  · subst h
    simp [Counts.get]
  · simp [Counts.get, h]

theorem destroyed_get (count : Counts) (d e : Int) (o : Outcome) :
    (fgdsFileDestroyed count d o).count.get e =
      if e = d then count.get d - 1 else count.get e := by
  unfold fgdsFileDestroyed
  dsimp only
  split_ifs with hzero heq hone heq heq
  · rw [heq, hzero]
  · rfl
  · rw [get_update, if_pos heq, Option.getD_none]
    omega
  · rw [get_update, if_neg heq]
  · rw [get_update, if_pos heq, Option.getD_some]
  · rw [get_update, if_neg heq]

theorem destroyed_calls (count : Counts) (d : Int) (o : Outcome) :
    (fgdsFileDestroyed count d o).calls =
      if count.get d = 1 then [.fgdsClose d o.closes] else [] := by
  unfold fgdsFileDestroyed
  dsimp only
  split_ifs <;> first | rfl | omega

theorem constructed_cases (count : Counts) (d : Int) (o : Outcome) :
    (fgdsFileConstructed count d o).returns = false ∧
        (fgdsFileConstructed count d o).count = count ∧
        ((fgdsFileConstructed count d o).calls = [] ∨
          (fgdsFileConstructed count d o).calls = [.fgdsOpen d false] ∧ count.get d = 0) ∨
      (fgdsFileConstructed count d o).returns = true ∧
        (fgdsFileConstructed count d o).count =
          Function.update count d (some (count.get d + 1)) ∧
        (fgdsFileConstructed count d o).calls =
          if count.get d = 0 then [.fgdsOpen d true] else [] := by
  cases hload : o.loads with
  | false => exact .inl (by simp [fgdsFileConstructed, hload])
  | true =>
    by_cases hzero : count.get d = 0
    · cases hdevice : o.setDevice with
      | false => exact .inl (by simp [fgdsFileConstructed, hload, hzero, hdevice])
      | true =>
        cases hopen : o.opens with
        | false => exact .inl (by simp [fgdsFileConstructed, hload, hzero, hdevice, hopen])
        | true => exact .inr (by simp [fgdsFileConstructed, hload, hzero, hdevice, hopen])
    · exact .inr (by simp [fgdsFileConstructed, hload, hzero])

theorem next_share (hf : Object f) (ho : o.fileid = true) :
    Share f count o (f.next count o) := by
  obtain ⟨d, fd, held, point⟩ := f
  cases point with
  | opening =>
    cases hopen : o.osOpen with
    | none => refine .keeps ?_ ?_ (.inl ?_) ?_ <;> simp [FgdsFile.next, hopen, FgdsFile.holds]
    | some fd => refine .keeps ?_ ?_ (.inl ?_) ?_ <;> simp [FgdsFile.next, hopen, FgdsFile.holds]
  | constructing =>
    rcases constructed_cases count d o with ⟨hret, hcount, hcalls⟩ | ⟨hret, hcount, hcalls⟩
    · exact .keeps (by simp [FgdsFile.next, hret, FgdsFile.holds]) hcount hcalls rfl
    · exact .takes rfl (by simp [FgdsFile.next, hret]) hcount hcalls rfl
  | counted => exact .keeps rfl rfl (.inl rfl) rfl
  | building => exact .keeps (by simp [FgdsFile.next, ho, FgdsFile.holds]) rfl (.inl rfl) rfl
  | live => exact .keeps rfl rfl (.inl rfl) rfl
  | undoing => exact absurd hf id
  | failing => exact .keeps rfl rfl (.inl rfl) rfl
  | failed => exact .keeps rfl rfl (.inl rfl) rfl
  | deleting fd held =>
    refine .keeps ?_ rfl (.inl rfl) rfl
    cases held <;> rfl
  | releasing => exact .drops rfl rfl rfl rfl rfl
  | gone => exact .keeps rfl rfl (.inl rfl) rfl

theorem next_deviceId (hf : Object f) : (f.next count o).file.deviceId = f.deviceId := by
  obtain ⟨d, fd, held, point⟩ := f
  cases point with
  | opening => cases hopen : o.osOpen <;> simp [FgdsFile.next, hopen]
  | undoing => exact absurd hf id
  | _ => rfl

theorem next_object (hf : Object f) (ho : o.fileid = true) : Object (f.next count o).file := by
  obtain ⟨d, fd, held, point⟩ := f
  cases point with
  | opening =>
    obtain ⟨rfl, rfl⟩ : fd = none ∧ held = false := hf
    cases hopen : o.osOpen <;> simp [FgdsFile.next, hopen, Object]
  | constructing =>
    cases hret : (fgdsFileConstructed count d o).returns <;>
      simpa [FgdsFile.next, hret, Object] using hf
  | building => simpa [FgdsFile.next, ho, Object] using hf
  | undoing => exact absurd hf id
  | failing => exact ⟨rfl, hf.2⟩
  | deleting fd' held' => cases held' <;> exact ⟨hf.1, hf.2.1⟩
  | counted => exact ⟨hf.1, rfl⟩
  | _ => exact hf

/-- Descriptors are opened, closed and kept. -/
theorem next_owned (hf : Object f) (ho : o.fileid = true) :
    ((f.next count o).closed ++ (f.next count o).file.owned).Perm
      ((f.next count o).opened ++ f.owned) := by
  obtain ⟨d, fd, held, point⟩ := f
  cases point with
  | opening =>
    obtain ⟨rfl, -⟩ : fd = none ∧ held = false := hf
    cases hopen : o.osOpen <;> simp [FgdsFile.next, hopen, FgdsFile.owned]
  | constructing =>
    cases hret : (fgdsFileConstructed count d o).returns <;>
      simp [FgdsFile.next, hret, FgdsFile.owned]
  | building => simp [FgdsFile.next, ho, FgdsFile.owned]
  | undoing => exact absurd hf id
  | failing => simp [FgdsFile.next, FgdsFile.owned]
  | deleting fd' held' =>
    obtain ⟨rfl, -⟩ : fd = none ∧ _ := hf
    cases held' <;> simp [FgdsFile.next, FgdsFile.owned]
  | _ => exact .refl _

/-- A step opens the descriptor that `os.open` returns, or none, and closes one of its own. -/
theorem next_fds (count : Counts) (o : Outcome) (hf : Object f) :
    ((f.next count o).opened = [] ∨ (f.next count o).opened = o.osOpen.toList) ∧
      ((f.next count o).closed = [] ∨ (f.next count o).closed = f.owned) := by
  obtain ⟨d, fd, held, point⟩ := f
  cases point with
  | opening => cases hopen : o.osOpen <;> simp [FgdsFile.next, hopen]
  | undoing => exact absurd hf id
  | failing => exact ⟨.inl rfl, .inr rfl⟩
  | deleting fd held => exact ⟨.inl rfl, .inr rfl⟩
  | _ => exact ⟨.inl rfl, .inl rfl⟩

end Moves

/-! ## One step of the system -/

section Steps

variable {s : State}

theorem holders_append (files files' : List FgdsFile) (d : Int) :
    holders (files ++ files') d = holders files d + holders files' d :=
  List.countP_append

theorem holders_cons (f : FgdsFile) (files : List FgdsFile) (d : Int) :
    holders (f :: files) d =
      holders files d + if f.holds = true ∧ f.deviceId = d then 1 else 0 := by
  simp [holders, List.countP_cons]

/-- An object in the list, and the list with another object in its place. -/
theorem exists_set {files : List FgdsFile} {i : Nat} {f : FgdsFile}
    (h : files[i]? = some f) :
    ∃ before after, files = before ++ f :: after ∧
      ∀ g, files.set i g = before ++ g :: after := by
  obtain ⟨hi, rfl⟩ := List.getElem?_eq_some_iff.mp h
  refine ⟨files.take i, files.drop (i + 1), ?_, fun g => ?_⟩
  · rw [List.getElem_cons_drop, List.take_append_drop]
  · rw [List.set_eq_take_append_cons_drop, if_pos hi]

/-- Only the share of the object that takes the step counts. -/
theorem holders_set {files : List FgdsFile} {i : Nat} {f g : FgdsFile}
    (h : files[i]? = some f) (d : Int) :
    holders (files.set i g) d + (if f.holds = true ∧ f.deviceId = d then 1 else 0) =
      holders files d + (if g.holds = true ∧ g.deviceId = d then 1 else 0) := by
  obtain ⟨before, after, hfiles, hset⟩ := exists_set h
  rw [hset, hfiles, holders_append, holders_append, holders_cons, holders_cons]
  omega

/-- The descriptors of the others stay as they are. -/
theorem fds_move {files : List FgdsFile} {i : Nat} {f : FgdsFile} {m : Move} {fds : List Nat}
    (h : files[i]? = some f) (hfds : fds.Perm (files.flatMap FgdsFile.owned))
    (hclosed : m.closed = [] ∨ m.closed = f.owned)
    (howned : (m.closed ++ m.file.owned).Perm (m.opened ++ f.owned)) :
    (m.opened ++ fds.diff m.closed).Perm ((files.set i m.file).flatMap FgdsFile.owned) := by
  obtain ⟨before, after, hfiles, hset⟩ := exists_set h
  rw [hset]
  rw [hfiles] at hfds
  simp only [List.flatMap_append, List.flatMap_cons] at hfds ⊢
  obtain ⟨rest, hrest⟩ : ∃ rest, rest =
    before.flatMap FgdsFile.owned ++ after.flatMap FgdsFile.owned := ⟨_, rfl⟩
  -- the object's own descriptors first
  have hfront : fds ~ f.owned ++ rest :=
    hrest ▸ hfds.trans (List.perm_append_comm_assoc _ _ _)
  have hsub : m.closed ++ fds.diff m.closed ~ fds := by
    refine List.subperm_append_diff_self_of_count_le fun x hx => ?_
    rw [hfront.count_eq, List.count_append]
    rcases hclosed with hnil | hown
    · simp [hnil] at hx
    · rw [hown]
      exact Nat.le_add_right _ _
  have hmoved : m.opened ++ fds.diff m.closed ~ m.file.owned ++ rest := by
    refine (List.perm_append_left_iff m.closed).mp ?_
    calc m.closed ++ (m.opened ++ fds.diff m.closed)
        _ ~ m.opened ++ (m.closed ++ fds.diff m.closed) := List.perm_append_comm_assoc _ _ _
        _ ~ m.opened ++ (f.owned ++ rest) := (hsub.trans hfront).append_left _
        _ ~ (m.closed ++ m.file.owned) ++ rest := by
          rw [← List.append_assoc]
          exact howned.symm.append_right rest
        _ ~ m.closed ++ (m.file.owned ++ rest) := by rw [List.append_assoc]
  exact hmoved.trans (hrest ▸ List.perm_append_comm_assoc _ _ _)

/-- The number of holders and the count after each kind of step of an object on `e`. -/
inductive Effect (files files' : List FgdsFile) (count : Counts) (m : Move) (e : Int) : Prop
  | same (holders : ∀ d, holders files' d = holders files d) (unchanged : m.count = count)
      (calls : m.calls = [] ∨ m.calls = [.fgdsOpen e false] ∧ TorchFile.holders files e = 0)
  | up (point : m.file.point = .counted)
      (holders : ∀ d, holders files' d = holders files d + if d = e then 1 else 0)
      (get : ∀ d, m.count.get d = TorchFile.holders files' d)
      (calls : m.calls = if TorchFile.holders files e = 0 then [.fgdsOpen e true] else [])
  | down (point : m.file.point = .gone)
      (holders : ∀ d, TorchFile.holders files d = holders files' d + if d = e then 1 else 0)
      (get : ∀ d, m.count.get d = TorchFile.holders files' d) (ok : Bool)
      (calls : m.calls = if TorchFile.holders files e = 1 then [.fgdsClose e ok] else [])

theorem move_effect {files : List FgdsFile} {i : Nat} {f : FgdsFile} {count : Counts}
    {o : Outcome} {m : Move} (h : files[i]? = some f) (hdev : m.file.deviceId = f.deviceId)
    (hcount : ∀ d, count.get d = holders files d) (hshare : Share f count o m) :
    Effect files (files.set i m.file) count m f.deviceId := by
  have hset := fun d => holders_set (g := m.file) h d
  simp only [hdev] at hset
  cases hshare with
  | keeps share hsame calls released =>
    refine .same (fun d => ?_) hsame (by rwa [← hcount])
    have := hset d
    rw [share] at this
    omega
  | takes before after hnew calls released =>
    have hafter : m.file.holds = true := by simp [FgdsFile.holds, after]
    simp only [before, hafter, Bool.false_eq_true, false_and, true_and, if_false,
      Nat.add_zero] at hset
    have hup : ∀ d, holders (files.set i m.file) d =
        holders files d + if d = f.deviceId then 1 else 0 := by
      intro d
      rw [hset d]
      simp only [eq_comm]
    refine .up after hup (fun d => ?_) (by rwa [← hcount])
    rw [hnew, get_update, hup, hcount, hcount]
    split_ifs with hd
    · rw [hd, Option.getD_some]
    · rfl
  | drops before after result calls released =>
    have hbefore : f.holds = true := by simp [FgdsFile.holds, before]
    have hafter : m.file.holds = false := by simp [FgdsFile.holds, after]
    simp only [hbefore, hafter, Bool.false_eq_true, false_and, true_and, if_false,
      Nat.add_zero] at hset
    have hdown : ∀ d, holders files d =
        holders (files.set i m.file) d + if d = f.deviceId then 1 else 0 := by
      intro d
      rw [← hset d]
      simp only [eq_comm]
    refine .down after hdown (fun d => ?_) o.closes (by rw [calls, destroyed_calls, hcount])
    rw [result, destroyed_get, hcount, hcount]
    by_cases hd : d = f.deviceId
    · rw [if_pos hd, ← hd, hdown d, if_pos hd, Nat.add_sub_cancel]
    · rw [if_neg hd, hdown d, if_neg hd, Nat.add_zero]

theorem Counted.object {i : Nat} {f : FgdsFile} (h : Counted s) (hf : s.files[i]? = some f) :
    Object f := h.objects f (List.mem_of_getElem? hf)

theorem step_next {i : Nat} {f : FgdsFile} (hf : s.files[i]? = some f) (o : Outcome) :
    s.step (.next i o) = s.move i (f.next s.count o) ∧
      s.calls (.next i o) = (f.next s.count o).calls := by
  simp only [State.step, State.calls, hf, and_self]

theorem Counted.effect {i : Nat} {f : FgdsFile} {o : Outcome} (h : Counted s)
    (hf : s.files[i]? = some f) (ho : o.fileid = true) :
    Effect s.files (s.files.set i (f.next s.count o).file) s.count (f.next s.count o)
      f.deviceId :=
  move_effect hf (next_deviceId (h.object hf)) h.count (next_share (h.object hf) ho)

theorem counted_init : Counted sessions.init := by
  constructor <;> simp [sessions, holders, Counts.get]

/-- A new object has nothing yet. -/
theorem Counted.construct (h : Counted s) (d : Int) : Counted (s.step (.construct d)) := by
  refine ⟨fun e => ?_, fun f hf => ?_, ?_, h.distinct, h.once, fun i hi => ?_⟩
  · show s.count.get e = holders (s.files ++ [_]) e
    rw [h.count, holders_append]
    rfl
  · rcases List.mem_append.mp hf with hold | hnew
    · exact h.objects f hold
    · rw [List.mem_singleton.mp hnew]
      exact ⟨rfl, rfl⟩
  · show s.fds ~ (s.files ++ [_]).flatMap FgdsFile.owned
    rw [List.flatMap_append]
    simpa [FgdsFile.owned] using h.fds
  · obtain ⟨f, hf, hgone⟩ := h.gone i hi
    exact ⟨f, List.getElem?_append_left (List.getElem?_eq_some_iff.mp hf).1 ▸ hf, hgone⟩

/-- `__del__` starts with the share and the descriptor that the object has. -/
theorem Counted.del (h : Counted s) {i : Nat} {f : FgdsFile} (hf : s.files[i]? = some f)
    (hover : f.point = .live ∨ f.point = .failed) : Counted (s.step (.del i)) := by
  have hobj := h.object hf
  obtain ⟨d, fd, held, point⟩ := f
  have hdel : FgdsFile.holds ⟨d, none, false, .deleting fd held⟩ =
      FgdsFile.holds ⟨d, fd, held, point⟩ ∧ Object ⟨d, none, false, .deleting fd held⟩ ∧
      FgdsFile.owned ⟨d, none, false, .deleting fd held⟩ =
        FgdsFile.owned ⟨d, fd, held, point⟩ := by
    rcases hover with rfl | rfl
    · obtain ⟨hfd, rfl⟩ : fd.isSome = true ∧ held = true := hobj
      exact ⟨rfl, ⟨rfl, rfl, hfd⟩, rfl⟩
    · obtain ⟨rfl, rfl⟩ : fd = none ∧ held = false := hobj
      exact ⟨rfl, ⟨rfl, rfl, rfl⟩, rfl⟩
  obtain ⟨hholds, hobject, howned⟩ := hdel
  have hstep : s.step (.del i) =
      { s with files := s.files.set i ⟨d, none, false, .deleting fd held⟩ } := by
    simp only [State.step, hf]
    rfl
  rw [hstep]
  refine ⟨fun e => ?_, fun g hg => ?_, ?_, h.distinct, h.once, fun j hj => ?_⟩
  · have hset := holders_set (g := ⟨d, none, false, .deleting fd held⟩) hf e
    rw [hholds] at hset
    have := h.count e
    dsimp only at hset ⊢
    omega
  · rcases List.mem_or_eq_of_mem_set hg with hold | rfl
    · exact h.objects g hold
    · exact hobject
  · obtain ⟨before, after, hfiles, hset⟩ := exists_set hf
    have hfds := h.fds
    rw [hfiles] at hfds
    show s.fds ~ (s.files.set i _).flatMap FgdsFile.owned
    rw [hset]
    simpa only [List.flatMap_append, List.flatMap_cons, howned] using hfds
  · obtain ⟨g, hg, hgone⟩ := h.gone j hj
    have hne : i ≠ j := by
      rintro rfl
      rw [hf] at hg
      obtain rfl := Option.some.inj hg
      rcases hover with hlive | hfailed
      · exact Point.noConfusion (hlive.symm.trans hgone)
      · exact Point.noConfusion (hfailed.symm.trans hgone)
    exact ⟨g, by rw [List.getElem?_set_ne hne]; exact hg, hgone⟩

/-- An object that is gone takes no more steps; one that releases its session is gone then,
and was not before. -/
theorem next_released {f : FgdsFile} (count : Counts) {o : Outcome} (hf : Object f)
    (ho : o.fileid = true) :
    (f.point = .gone → (f.next count o).file.point = .gone) ∧
      ((f.next count o).released = true →
        f.point ≠ .gone ∧ (f.next count o).file.point = .gone) := by
  refine ⟨fun hgone => ?_, fun hrel => ?_⟩
  · simp only [FgdsFile.next, hgone]
  · cases next_share hf ho with
    | keeps share hsame calls released => rw [released] at hrel; cases hrel
    | takes before after hnew calls released => rw [released] at hrel; cases hrel
    | drops before after result calls released => exact ⟨by rw [before]; simp, after⟩

theorem Counted.next (h : Counted s) {i : Nat} {f : FgdsFile} {o : Outcome}
    (hf : s.files[i]? = some f) (ho : o.fileid = true) (hfresh : ∀ fd ∈ o.osOpen, fd ∉ s.fds) :
    Counted (s.step (.next i o)) := by
  have hobj := h.object hf
  obtain ⟨hgone, hrel⟩ := next_released s.count hobj ho
  obtain ⟨hopened, hclosed⟩ := next_fds s.count o hobj
  have hi : i < s.files.length := (List.getElem?_eq_some_iff.mp hf).1
  -- an object that has released its session before, or does so now
  have hgoneNow : ∀ j ∈ s.released, ∃ g,
      (s.files.set i (f.next s.count o).file)[j]? = some g ∧ g.point = .gone := by
    intro j hj
    obtain ⟨g, hg, hpoint⟩ := h.gone j hj
    by_cases hij : i = j
    · subst hij
      rw [hf] at hg
      obtain rfl := Option.some.inj hg
      exact ⟨_, List.getElem?_set_self hi, hgone hpoint⟩
    · exact ⟨g, by rw [List.getElem?_set_ne hij]; exact hg, hpoint⟩
  rw [(step_next hf o).1]
  refine ⟨?_, fun g hg => ?_, ?_, ?_, ?_, ?_⟩
  · cases h.effect hf ho with
    | same hholders hsame calls =>
      intro d
      show (f.next s.count o).count.get d = holders (s.files.set i _) d
      rw [hsame, hholders, h.count]
    | up point hholders hget calls => exact hget
    | down point hholders hget ok calls => exact hget
  · rcases List.mem_or_eq_of_mem_set hg with hold | rfl
    · exact h.objects g hold
    · exact next_object hobj ho
  · exact fds_move hf h.fds hclosed (next_owned hobj ho)
  · show ((f.next s.count o).opened ++ s.fds.diff (f.next s.count o).closed).Nodup
    have hrest : (s.fds.diff (f.next s.count o).closed).Nodup :=
      h.distinct.sublist (List.diff_sublist _ _)
    rcases hopened with hnone | hsome
    · rwa [hnone]
    · rw [hsome]
      cases hfd : o.osOpen with
      | none => exact hrest
      | some fd =>
        refine List.nodup_cons.mpr ⟨fun hmem => hfresh fd hfd ?_, hrest⟩
        exact (List.diff_sublist _ _).subset hmem
  · show (if (f.next s.count o).released = true then i :: s.released else s.released).Nodup
    split_ifs with hnow
    · refine List.nodup_cons.mpr ⟨fun hmem => ?_, h.once⟩
      obtain ⟨g, hg, hpoint⟩ := h.gone i hmem
      rw [hf] at hg
      obtain rfl := Option.some.inj hg
      exact (hrel hnow).1 hpoint
    · exact h.once
  · show ∀ j ∈ (if (f.next s.count o).released = true then i :: s.released else s.released),
      ∃ g, (s.files.set i (f.next s.count o).file)[j]? = some g ∧ g.point = .gone
    split_ifs with hnow
    · intro j hj
      rcases List.mem_cons.mp hj with rfl | hold
      · exact ⟨_, List.getElem?_set_self hi, (hrel hnow).2⟩
      · exact hgoneNow j hold
    · exact hgoneNow

theorem Counted.step (h : Counted s) {a : Action} (hp : Possible s a) : Counted (s.step a) := by
  cases a with
  | construct d => exact h.construct d
  | next i o =>
    obtain ⟨hi, ho, hfresh⟩ := hp
    exact h.next (List.getElem?_eq_getElem hi) ho hfresh
  | del i =>
    obtain ⟨f, hf, hover⟩ := hp
    exact h.del hf hover

/-- The step that ends a failed construction closes the descriptor. -/
theorem Counted.next_closed (h : Counted s) {i : Nat} {f : FgdsFile} {o : Outcome}
    (hf : s.files[i]? = some f) (ho : o.fileid = true)
    (hfailed : (f.next s.count o).file.point = .failed) :
    ∀ fd ∈ f.fd, fd ∉ (s.step (.next i o)).fds := by
  intro fd hfd
  have hobj := h.object hf
  rw [(step_next hf o).1]
  obtain ⟨d, fd', held, point⟩ := f
  obtain rfl : fd' = some fd := hfd
  cases point with
  | failing =>
    show fd ∉ s.fds.diff [fd]
    rw [h.distinct.mem_sdiff_iff]
    simp
  | constructing =>
    cases hret : (fgdsFileConstructed s.count d o).returns <;> simp [FgdsFile.next, hret] at hfailed
  | building => simp [FgdsFile.next, ho] at hfailed
  | counted => cases hfailed
  | live => cases hfailed
  | undoing => exact absurd hobj id
  | opening => cases hobj.1
  | failed => cases hobj.1
  | deleting fd'' held' => cases hobj.1
  | releasing => cases hobj.1
  | gone => cases hobj.1

/-- The calls of a step, and the numbers of holders before and after it. -/
structure CallsExact (files files' : List FgdsFile) (calls : List LibCall) : Prop where
  opens : ∀ d ok, .fgdsOpen d ok ∈ calls →
    holders files d = 0 ∧ holders files' d = if ok then 1 else 0
  leaves : ∀ d, holders files d = 0 → holders files' d ≠ 0 → .fgdsOpen d true ∈ calls
  closes : ∀ d, (∃ ok, .fgdsClose d ok ∈ calls) ↔ holders files d ≠ 0 ∧ holders files' d = 0

section Calls

variable {files files' : List FgdsFile} {calls : List LibCall} {e : Int}

theorem CallsExact.same (hholders : ∀ d, holders files' d = holders files d)
    (hcalls : calls = [] ∨ calls = [.fgdsOpen e false] ∧ holders files e = 0) :
    CallsExact files files' calls := by
  refine ⟨fun d ok hmem => ?_, fun d hzero hne => ?_, fun d => ?_⟩
  · rcases hcalls with hnone | ⟨hopen, hzero⟩
    · simp [hnone] at hmem
    · rw [hopen, List.mem_singleton] at hmem
      obtain ⟨rfl, rfl⟩ := LibCall.fgdsOpen.inj hmem
      exact ⟨hzero, (hholders _).trans hzero⟩
  · rw [hholders] at hne
    exact absurd hzero hne
  · rw [hholders]
    refine ⟨?_, fun hd => absurd hd.2 hd.1⟩
    rintro ⟨ok, hmem⟩
    rcases hcalls with hnone | ⟨hopen, -⟩
    · simp [hnone] at hmem
    · simp [hopen] at hmem

theorem CallsExact.up
    (hholders : ∀ d, holders files' d = holders files d + if d = e then 1 else 0)
    (hcalls : calls = if holders files e = 0 then [.fgdsOpen e true] else []) :
    CallsExact files files' calls := by
  subst hcalls
  refine ⟨fun d ok hmem => ?_, fun d hzero hne => ?_, fun d => ⟨?_, ?_⟩⟩
  · split_ifs at hmem with hzero
    · obtain ⟨rfl, rfl⟩ := LibCall.fgdsOpen.inj (List.mem_singleton.mp hmem)
      exact ⟨hzero, by rw [hholders, hzero]; simp⟩
    · cases hmem
  · by_cases hd : d = e
    · rw [← hd, if_pos hzero]
      exact List.mem_singleton.mpr rfl
    · rw [hholders, if_neg hd] at hne
      exact absurd hzero hne
  · rintro ⟨ok, hmem⟩
    split_ifs at hmem
    · cases List.mem_singleton.mp hmem
    · cases hmem
  · rintro ⟨hne, hzero⟩
    rw [hholders] at hzero
    omega

theorem CallsExact.down {ok : Bool}
    (hholders : ∀ d, holders files d = holders files' d + if d = e then 1 else 0)
    (hcalls : calls = if holders files e = 1 then [.fgdsClose e ok] else []) :
    CallsExact files files' calls := by
  subst hcalls
  refine ⟨fun d ok' hmem => ?_, fun d hzero hne => ?_, fun d => ⟨?_, ?_⟩⟩
  · split_ifs at hmem
    · cases List.mem_singleton.mp hmem
    · cases hmem
  · rw [hholders] at hzero
    omega
  · rintro ⟨ok', hmem⟩
    split_ifs at hmem with hone
    · obtain ⟨rfl, -⟩ := LibCall.fgdsClose.inj (List.mem_singleton.mp hmem)
      have hself := hholders d
      rw [if_pos rfl] at hself
      omega
    · cases hmem
  · rintro ⟨hne, hzero⟩
    rw [hholders, hzero] at hne
    by_cases hd : d = e
    · have hone : holders files e = 1 := by rw [hholders, ← hd, hzero, if_pos rfl]
      rw [if_pos hone, hd]
      exact ⟨ok, List.mem_singleton.mpr rfl⟩
    · rw [if_neg hd] at hne
      exact absurd rfl hne

variable {count : Counts} {m : Move}

theorem Effect.callsExact (h : Effect files files' count m e) :
    CallsExact files files' m.calls := by
  cases h with
  | same hholders hsame calls => exact .same hholders calls
  | up point hholders hget calls => exact .up hholders calls
  | down point hholders hget ok calls => exact .down hholders calls

/-- A step that ends in the handler, or with the exception, has not counted. -/
theorem Effect.count_of_failed (h : Effect files files' count m e)
    (hfail : m.file.point = .failing ∨ m.file.point = .failed) : m.count = count := by
  cases h with
  | same hholders hsame calls => exact hsame
  | up point hholders hget calls => simp [point] at hfail
  | down point hholders hget ok calls => simp [point] at hfail

end Calls

/-- From the effect of a step of an object. -/
theorem Counted.next_exact (h : Counted s) {i : Nat} {f : FgdsFile} {o : Outcome}
    (hf : s.files[i]? = some f) (ho : o.fileid = true) : StepExact s (.next i o) := by
  have hi : i < s.files.length := (List.getElem?_eq_some_iff.mp hf).1
  obtain ⟨hstep, hcalls⟩ := step_next hf o
  have hfile : ∀ g, (s.step (.next i o)).files[i]? = some g → g = (f.next s.count o).file := by
    intro g hg
    rw [hstep] at hg
    exact (Option.some.inj ((List.getElem?_set_self hi).symm.trans hg)).symm
  have hfiles : (s.step (.next i o)).files = s.files.set i (f.next s.count o).file := by
    rw [hstep]
    rfl
  have heffect := h.effect hf ho
  have hexact := heffect.callsExact
  rw [← hcalls, ← hfiles] at hexact
  refine ⟨hexact.opens, hexact.leaves, hexact.closes, fun j o' g ha hg hfail => ?_,
    fun j o' f' g ha hf' hg hfailed => ?_⟩
  · obtain ⟨rfl, -⟩ := Action.next.inj ha
    rw [hfile g hg] at hfail
    rw [hstep]
    exact heffect.count_of_failed hfail
  · obtain ⟨rfl, -⟩ := Action.next.inj ha
    rw [hf] at hf'
    obtain rfl := Option.some.inj hf'
    rw [hfile g hg] at hfailed
    exact h.next_closed hf ho hfailed

/-- A new object, or one whose `__del__` starts, changes no number. -/
theorem stepExact_quiet {a : Action} (hcalls : s.calls a = [])
    (hholders : ∀ d, holders (s.step a).files d = holders s.files d)
    (hnext : ∀ i o, a ≠ .next i o) : StepExact s a := by
  have hexact : CallsExact s.files (s.step a).files (s.calls a) :=
    .same (e := 0) hholders (.inl hcalls)
  exact ⟨hexact.opens, hexact.leaves, hexact.closes, fun i o g ha => absurd ha (hnext i o),
    fun i o f g ha => absurd ha (hnext i o)⟩

theorem Counted.step_exact (h : Counted s) {a : Action} (hp : Possible s a) : StepExact s a := by
  have hafter := h.step hp
  cases a with
  | construct d =>
    refine stepExact_quiet rfl (fun e => ?_) (by simp)
    rw [← hafter.count, ← h.count]
    rfl
  | next i o =>
    obtain ⟨hi, ho, -⟩ := hp
    exact h.next_exact (List.getElem?_eq_getElem hi) ho
  | del i =>
    obtain ⟨f, hf, -⟩ := hp
    refine stepExact_quiet rfl (fun e => ?_) (by simp)
    rw [← hafter.count, ← h.count]
    simp only [State.step, hf]

end Steps

/-- For every interleaving of constructions and destructions, on any devices. -/
theorem sessions_exact {s : State} (h : Run sessions (fun _ _ => True) s) :
    Counted s ∧ ∀ a, sessions.possible s a → StepExact s a := by
  have hs : Counted s := h.inv counted_init fun s a hs hp _ => hs.step hp
  exact ⟨hs, fun a hp => hs.step_exact hp⟩

/-- `os.open` returns `fd`. -/
def opensFile (fd : Nat) : Outcome := ⟨some fd, true, true, true, true, true⟩

/-- The calls of the library return, or `fgds_open` raises. -/
def library (opens : Bool) : Outcome := ⟨none, true, true, opens, true, true⟩

/-- Two objects on device 3: the library refuses the first, whose descriptor is closed, and
accepts the second. -/
theorem sessions_exact_second :
    let acts : List Action :=
      [.construct 3, .construct 3, .next 0 (opensFile 5), .next 0 (library false),
        .next 1 (opensFile 6), .next 1 (library true), .next 0 (library true),
        .next 1 (library true)]
    Counted (sessions.after sessions.init acts) ∧
      (sessions.after sessions.init acts).count 3 = some 1 ∧
      (sessions.after sessions.init acts).fds = [6] := by
  exact ⟨(sessions_exact (Run.init.after (by decide) (by decide))).1, rfl, rfl⟩

end Fgds.TorchFile
