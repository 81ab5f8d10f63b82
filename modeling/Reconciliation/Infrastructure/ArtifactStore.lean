/-
  Reconciliation.Infrastructure.ArtifactStore — artifacts kept as files under a base directory.

  The files are a map from paths to contents; directories and failures of the disk are left
  out. Every path written lies below the base directory (`write_below`). The names in it are
  sanitized, and different names may be sanitized alike; reading translates line ends. So a
  set of writes keeps its artifacts apart, in every order, exactly when those for different
  jobs or names go to different paths or have the same content, and no content holds a
  carriage return (`keepsApart_iff`, `sharedDirectory_overwritten`).
-/
import Reconciliation.Base.Paths
import Reconciliation.Builders
import Reconciliation.Jobs.Contracts

namespace Reconciliation.Infrastructure

open Reconciliation.Base Reconciliation.Base.Paths Reconciliation.Contracts Reconciliation.Jobs Reconciliation.Builders

/-! ## Names -/

/-- `[A-Za-z0-9._-]`. -/
def safe (c : Char) : Bool :=
  ('A' ≤ c && c ≤ 'Z') || ('a' ≤ c && c ≤ 'z') || ('0' ≤ c && c ≤ '9') || c = '.' || c = '_' || c = '-'

def stripped (c : Char) : Bool := c = '.' || c = '_'

def cleaned (component : String) : List Char :=
  ((component.toList.map fun c => if safe c then c else '_').dropWhile stripped).rdropWhile stripped

def sanitize [PyRuntime] (component : String) : Except ArtifactWriteError String :=
  if cleaned component = [] ∨ cleaned component = ['.'] ∨ cleaned component = ['.', '.'] then
    .error ⟨"unsafe artifact path component: " ++ pyReprStr component⟩
  else .ok (String.ofList (cleaned component))

/-! ## The store -/

abbrev Files := Dict PosixPath String

/-- A call of `write`. -/
structure WriteCall where
  jobId : String
  name : String
  content : String
  mediaType : String
  deriving DecidableEq

section Store
variable [PyRuntime] (base : PosixPath)

/-- Where an artifact goes. -/
def target (call : WriteCall) : Except ArtifactWriteError PosixPath := do
  let jobDir := base.join (.parse (← sanitize call.jobId))
  let path := jobDir.join (.parse (← sanitize call.name))
  return path

def write (files : Files) (call : WriteCall) : Except ArtifactWriteError (ArtifactReference × Files) := do
  let path ← target base call
  return (⟨call.jobId, call.name, call.mediaType, path.print, call.content.utf8ByteSize⟩, files.insert path call.content)

/-- Line ends as text mode reads them. -/
def universalNewlines : List Char → List Char
  | [] => []
  | '\r' :: '\n' :: cs => '\n' :: universalNewlines cs
  | '\r' :: cs => '\n' :: universalNewlines cs
  | c :: cs => c :: universalNewlines cs

def read (files : Files) (reference : ArtifactReference) : Except ArtifactWriteError String :=
  match files.get? (.parse reference.location) with
  | some content => .ok (String.ofList (universalNewlines content.toList))
  | none => .error ⟨"failed to read artifact " ++ pyReprStr reference.name ++ ": [Errno 2] No such file or directory: " ++
      pyReprStr (PosixPath.parse reference.location).print⟩

/-- The files after a call: one that raises leaves them as they were. -/
def afterWrite (files : Files) (call : WriteCall) : Files :=
  match write base files call with
  | .ok (_, files) => files
  | .error _ => files

def afterWrites (files : Files) (calls : List WriteCall) : Files := calls.foldl (afterWrite base) files

end Store

/-! ## Where artifacts go -/

theorem cleaned_no_slash (component : String) : '/' ∉ cleaned component := by
  intro h
  have hmem : '/' ∈ component.toList.map fun c => if safe c then c else '_' :=
    (List.dropWhile_suffix stripped).subset ((List.rdropWhile_prefix stripped _).subset h)
  obtain ⟨c, -, hc⟩ := List.mem_map.mp hmem
  by_cases hsafe : safe c = true
  · rw [if_pos hsafe] at hc
    subst hc
    revert hsafe
    decide
  · rw [if_neg hsafe] at hc
    exact absurd hc (by decide)

section Paths
variable [PyRuntime] {base path : PosixPath} {component name : String} {call : WriteCall}

/-- A sanitized name is one component, and not the directory above. -/
theorem sanitize_component (h : sanitize component = .ok name) : Component name.toList ∧ name.toList ≠ ['.', '.'] := by
  unfold sanitize at h
  by_cases hreserved : cleaned component = [] ∨ cleaned component = ['.'] ∨ cleaned component = ['.', '.']
  · rw [if_pos hreserved] at h
    cases h
  · rw [if_neg hreserved] at h
    cases h
    rw [String.toList_ofList]
    push Not at hreserved
    exact ⟨⟨hreserved.1, hreserved.2.1, cleaned_no_slash component⟩, hreserved.2.2⟩

/-- An artifact goes two levels below the base directory. -/
theorem target_below (h : target base call = .ok path) : base.Below path := by
  obtain ⟨job, hjob, h⟩ := Outcome.bind_ok.mp h
  obtain ⟨name, hname, h⟩ := Outcome.bind_ok.mp h
  cases h
  obtain ⟨hjobComponent, hjobAbove⟩ := sanitize_component hjob
  obtain ⟨hnameComponent, hnameAbove⟩ := sanitize_component hname
  obtain ⟨hroot, hparts⟩ := (base.join (.parse job)).join_name hnameComponent
  obtain ⟨hjobRoot, hjobParts⟩ := base.join_name hjobComponent
  refine ⟨hroot.trans hjobRoot, [job.toList, name.toList], ?_, by simp, ?_⟩
  · rw [hparts, hjobParts, List.append_assoc]
    rfl
  · simp [Ne.symm hjobAbove, Ne.symm hnameAbove]

/-- Where an artifact goes depends on the job and the name alone. -/
theorem target_same {c d : WriteCall} (hjob : c.jobId = d.jobId) (hname : c.name = d.name) :
    target base c = target base d := by
  unfold target
  rw [hjob, hname]

end Paths

/-! ## Text as it is read back -/

theorem universalNewlines_plain {cs : List Char} (h : '\r' ∉ cs) : universalNewlines cs = cs := by
  induction cs with
  | nil => rfl
  | cons c cs ih =>
    have hc : c ≠ '\r' := fun hc => h (by simp [hc])
    have hrest : universalNewlines cs = cs := ih fun hin => h (by simp [hin])
    simp [universalNewlines, hc, hrest]

theorem no_return_universalNewlines (cs : List Char) : '\r' ∉ universalNewlines cs := by
  induction cs using universalNewlines.induct with
  | case1 => simp [universalNewlines]
  | case2 cs ih => simpa [universalNewlines] using ih
  | case3 cs hnot ih => simpa [universalNewlines, hnot] using ih
  | case4 c cs hfirst hsecond ih =>
    have hc : c ≠ '\r' := hsecond
    simpa [universalNewlines, hc, Ne.symm hc] using ih

/-- A content is read back as it was written exactly without carriage returns. -/
theorem universalNewlines_iff {cs : List Char} : universalNewlines cs = cs ↔ '\r' ∉ cs :=
  ⟨fun h => h ▸ no_return_universalNewlines cs, universalNewlines_plain⟩

/-! ## Runs -/

def SamePair (c d : WriteCall) : Prop := c.jobId = d.jobId ∧ c.name = d.name

instance (c d : WriteCall) : Decidable (SamePair c d) := inferInstanceAs (Decidable (_ ∧ _))

/-- The last call that passes a test. -/
def lastCall (test : WriteCall → Bool) (calls : List WriteCall) : Option WriteCall := calls.reverse.find? test

section LastCall
variable {calls : List WriteCall} {call : WriteCall}

/-- A call that may be the last to pass a weaker test is the last to pass the stronger one, if it passes that. -/
theorem lastCall_stronger {weak strong : WriteCall → Bool} (hweak : ∀ c, strong c = true → weak c = true)
    (h : lastCall weak calls = some call) (hstrong : strong call = true) : lastCall strong calls = some call := by
  unfold lastCall at h ⊢
  obtain ⟨-, before, after, hsplit, hnone⟩ := List.find?_eq_some_iff_append.mp h
  refine List.find?_eq_some_iff_append.mpr ⟨hstrong, before, after, hsplit, fun c hc => ?_⟩
  have hfails : weak c = false := by simpa using hnone c hc
  by_contra hpasses
  have := hweak c (by simpa using hpasses)
  rw [hfails] at this
  cases this

theorem exists_lastCall (test : WriteCall → Bool) (hmem : call ∈ calls) (h : test call = true) :
    ∃ last ∈ calls, lastCall test calls = some last ∧ test last = true := by
  obtain ⟨last, hlast⟩ := Option.isSome_iff_exists.mp
    (List.find?_isSome.mpr ⟨call, List.mem_reverse.mpr hmem, h⟩ : (calls.reverse.find? test).isSome = true)
  exact ⟨last, List.mem_reverse.mp (List.mem_of_find?_eq_some hlast), hlast, List.find?_some hlast⟩

end LastCall

section Runs
variable [PyRuntime] {base path : PosixPath} {files : Files} {calls : List WriteCall} {call : WriteCall}

variable (base path) in
def goesTo (call : WriteCall) : Bool :=
  match target base call with
  | .ok p => p = path
  | .error _ => false

theorem goesTo_iff : goesTo base path call = true ↔ target base call = .ok path := by
  unfold goesTo
  cases target base call <;> simp

theorem afterWrite_ok (h : target base call = .ok path) : afterWrite base files call = files.insert path call.content := by
  unfold afterWrite write
  rw [h]
  rfl

/-- A call that raises changes no file. -/
theorem afterWrite_error {e : ArtifactWriteError} (h : target base call = .error e) : afterWrite base files call = files := by
  unfold afterWrite write
  rw [h]
  rfl

/-- A file holds what the last call that goes to its path wrote, and otherwise what it held. -/
theorem get_afterWrites : (afterWrites base files calls).get? path =
    ((lastCall (goesTo base path) calls).map WriteCall.content).or (files.get? path) := by
  induction calls using List.reverseRecOn with
  | nil => rfl
  | append_singleton calls call ih =>
    unfold afterWrites lastCall at ih ⊢
    rw [List.foldl_append, List.foldl_cons, List.foldl_nil, List.reverse_append, List.reverse_singleton,
      List.singleton_append]
    cases htarget : target base call with
    | error e =>
      have hnot : goesTo base path call = false := by simp [goesTo, htarget]
      rw [afterWrite_error htarget, ih, List.find?_cons_of_neg (by simp [hnot])]
    | ok p =>
      rw [afterWrite_ok htarget, Dict.get?_insert]
      by_cases hp : path = p
      · have hgoes : goesTo base path call = true := goesTo_iff.mpr (by rw [htarget, hp])
        rw [if_pos hp, List.find?_cons_of_pos hgoes]
        rfl
      · have hnot : goesTo base path call = false := by simp [goesTo, htarget, Ne.symm hp]
        rw [if_neg hp, ih, List.find?_cons_of_neg (by simp [hnot])]

end Runs

/-! ## Artifacts kept apart -/

/-- After the calls, every reference they returned reads as the content last written for its
    job and name, and every path that is new lies below the base directory. -/
structure Isolated [PyRuntime] (base : PosixPath) (files : Files) (calls : List WriteCall) : Prop where
  reads : ∀ before call after reference files', calls = before ++ call :: after →
    write base (afterWrites base files before) call = .ok (reference, files') →
      ∃ last, lastCall (fun c => SamePair c call) calls = some last ∧
        read (afterWrites base files calls) reference = .ok last.content
  below : ∀ path, path ∈ (afterWrites base files calls).keys → path ∈ files.keys ∨ base.Below path

/-- Whatever calls of a kind are made, in whatever order and from whatever files. -/
def KeepsApart [PyRuntime] (base : PosixPath) (K : WriteCall → Prop) : Prop :=
  ∀ files calls, (∀ c ∈ calls, K c) → Isolated base files calls

section Apart
variable [PyRuntime] {base : PosixPath} {K : WriteCall → Prop}

theorem write_ok {files files' : Files} {call : WriteCall} {reference : ArtifactReference}
    (h : write base files call = .ok (reference, files')) :
    ∃ path, target base call = .ok path ∧ reference.location = path.print := by
  obtain ⟨path, hpath, h⟩ := Outcome.bind_ok.mp h
  cases h
  exact ⟨path, hpath, rfl⟩

theorem exists_write {call : WriteCall} {path : PosixPath} (h : target base call = .ok path) (files : Files) :
    ∃ reference, reference.location = path.print ∧
      write base files call = .ok (reference, files.insert path call.content) :=
  ⟨⟨call.jobId, call.name, call.mediaType, path.print, call.content.utf8ByteSize⟩, rfl, by
    unfold write
    rw [h]
    rfl⟩

/-- A reference reads as what its path holds. -/
theorem read_print {files : Files} {path : PosixPath} {reference : ArtifactReference} {content : String}
    (hlocation : reference.location = path.print) (h : files.get? path = some content) :
    read files reference = .ok (String.ofList (universalNewlines content.toList)) := by
  unfold read
  rw [hlocation, PosixPath.parse_print, h]

theorem read_afterWrites {files : Files} {calls : List WriteCall} {path : PosixPath} {last : WriteCall}
    {reference : ArtifactReference} (hlast : lastCall (goesTo base path) calls = some last)
    (hlocation : reference.location = path.print) :
    read (afterWrites base files calls) reference = .ok (String.ofList (universalNewlines last.content.toList)) := by
  have hget : (afterWrites base files calls).get? path = some last.content := by
    rw [get_afterWrites, hlast]
    rfl
  exact read_print hlocation hget

theorem below_afterWrites (files : Files) (calls : List WriteCall) (path : PosixPath)
    (h : path ∈ (afterWrites base files calls).keys) : path ∈ files.keys ∨ base.Below path := by
  obtain ⟨content, hcontent⟩ := (Dict.mem_keys _).mp h
  rw [get_afterWrites] at hcontent
  cases hlast : lastCall (goesTo base path) calls with
  | none =>
    rw [hlast] at hcontent
    exact Or.inl ((Dict.mem_keys _).mpr ⟨content, by simpa using hcontent⟩)
  | some last =>
    have hgoes : goesTo base path last = true := List.find?_some hlast
    exact Or.inr (target_below (goesTo_iff.mp hgoes))

/-- One call is isolated only if its content has no carriage return. -/
theorem Isolated.no_return {files : Files} {c : WriteCall} {path : PosixPath} (h : Isolated base files [c])
    (hpath : target base c = .ok path) : '\r' ∉ c.content.toList := by
  obtain ⟨reference, hlocation, hwrite⟩ := exists_write hpath (afterWrites base files [])
  obtain ⟨last, hlast, hread⟩ := h.reads [] c [] reference _ rfl hwrite
  have hlast : c = last := by simpa [lastCall, SamePair] using hlast
  have hgoes : lastCall (goesTo base path) [c] = some c := by simp [lastCall, goesTo_iff.mpr hpath]
  rw [read_afterWrites hgoes hlocation, ← hlast, Except.ok.injEq] at hread
  apply universalNewlines_iff.mp
  rw [← String.toList_ofList (l := universalNewlines _), hread]

/-- Of two calls for different jobs or names that go to one path, the second is read back for the first. -/
theorem Isolated.overwritten {files : Files} {c d : WriteCall} {path : PosixPath} (h : Isolated base files [c, d])
    (hc : target base c = .ok path) (hd : target base d = .ok path) (hpair : ¬ SamePair c d) :
    universalNewlines d.content.toList = c.content.toList := by
  obtain ⟨reference, hlocation, hwrite⟩ := exists_write hc (afterWrites base files [])
  obtain ⟨last, hlast, hread⟩ := h.reads [] c [d] reference _ rfl hwrite
  have hnot : ¬ SamePair d c := fun hdc => hpair ⟨hdc.1.symm, hdc.2.symm⟩
  have hlast : c = last := by
    have hself : SamePair c c := ⟨rfl, rfl⟩
    simpa [lastCall, hnot, hself] using hlast
  have hgoes : lastCall (goesTo base path) [c, d] = some d := by simp [lastCall, goesTo_iff.mpr hd]
  rw [read_afterWrites hgoes hlocation, ← hlast, Except.ok.injEq] at hread
  rw [← hread, String.toList_ofList]

/-- The store keeps artifacts apart exactly when calls for different jobs or names that go to one
    path write the same, and no content that is written holds a carriage return. -/
theorem keepsApart_iff (base : PosixPath) (K : WriteCall → Prop) : KeepsApart base K ↔
    (∀ c path, K c → target base c = .ok path → '\r' ∉ c.content.toList) ∧
      ∀ c d path, K c → K d → target base c = .ok path → target base d = .ok path →
        SamePair c d ∨ c.content = d.content := by
  constructor
  · intro h
    have hplain : ∀ c path, K c → target base c = .ok path → '\r' ∉ c.content.toList := fun c path hc hpath =>
      (h Dict.empty [c] (by simpa using hc)).no_return hpath
    refine ⟨hplain, fun c d path hc hd hcpath hdpath => ?_⟩
    by_cases hpair : SamePair c d
    · exact Or.inl hpair
    · have hover := (h Dict.empty [c, d] (by simp [hc, hd])).overwritten hcpath hdpath hpair
      rw [universalNewlines_plain (hplain d path hd hdpath)] at hover
      exact Or.inr (String.ext hover.symm)
  · intro h files calls hcalls
    obtain ⟨hplain, hshared⟩ := h
    refine ⟨?_, below_afterWrites files calls⟩
    intro before call after reference files' hsplit hwrite
    obtain ⟨path, hpath, hlocation⟩ := write_ok hwrite
    have hmem : call ∈ calls := by simp [hsplit]
    obtain ⟨e, he, hlastPath, hgoes⟩ := exists_lastCall _ hmem (goesTo_iff.mpr hpath)
    obtain ⟨d, hd, hlastPair, hpair⟩ := exists_lastCall (fun c => SamePair c call) hmem (decide_eq_true ⟨rfl, rfl⟩)
    have hpair : SamePair d call := of_decide_eq_true hpair
    have hdpath : target base d = .ok path := (target_same hpair.1 hpair.2).trans hpath
    have hepath : target base e = .ok path := goesTo_iff.mp hgoes
    -- the last call that went to the path wrote what the last one for the pair did
    have hsame : e.content = d.content := by
      by_cases hepair : SamePair e call
      · have hstronger : ∀ c, decide (SamePair c call) = true → goesTo base path c = true := by
          intro c hc
          have hc : SamePair c call := of_decide_eq_true hc
          exact goesTo_iff.mpr ((target_same hc.1 hc.2).trans hpath)
        have := lastCall_stronger hstronger hlastPath (decide_eq_true hepair)
        rw [hlastPair] at this
        rw [Option.some.inj this]
      · rcases hshared d e path (hcalls d hd) (hcalls e he) hdpath hepath with hde | hde
        · exact absurd ⟨hde.1.symm.trans hpair.1, hde.2.symm.trans hpair.2⟩ hepair
        · exact hde.symm
    refine ⟨d, hlastPair, ?_⟩
    rw [read_afterWrites hlastPath hlocation, universalNewlines_plain (hplain e path (hcalls e he) hepath), String.ofList_toList, hsame]

end Apart

/-! ## A shared directory -/

def artifactsDir : PosixPath := .parse "/srv/artifacts"

/-- Two jobs whose ids are sanitized alike. -/
def firstJob : WriteCall := ⟨"job/1", "report.csv", "first", "text/csv"⟩

def secondJob : WriteCall := ⟨"job_1", "report.csv", "second", "text/csv"⟩

/-- An artifact whose content has a carriage return. -/
def csvLines : WriteCall := ⟨"job-2", "report.csv", "id\r\n", "text/csv"⟩

/-- The second job overwrites the first one's report, and a content with a carriage return is read back
    without it. -/
theorem sharedDirectory_overwritten :
    ¬ @Isolated asciiRuntime artifactsDir Dict.empty [firstJob, secondJob] ∧
      ¬ @Isolated asciiRuntime artifactsDir Dict.empty [csvLines] := by
  have hgoes : ∀ call ∈ [firstJob, secondJob],
      @target asciiRuntime artifactsDir call = .ok (.parse "/srv/artifacts/job_1/report.csv") := by
    intro call hcall
    apply (@goesTo_iff asciiRuntime _ _ _).mp
    revert call
    decide +kernel
  have hcsv : @target asciiRuntime artifactsDir csvLines = .ok (.parse "/srv/artifacts/job-2/report.csv") := by
    apply (@goesTo_iff asciiRuntime _ _ _).mp
    decide +kernel
  refine ⟨fun h => ?_, fun h => ?_⟩
  · have := @Isolated.overwritten asciiRuntime _ _ _ _ _ h (hgoes _ (by simp)) (hgoes _ (by simp)) (by decide)
    revert this
    decide +kernel
  · have := @Isolated.no_return asciiRuntime _ _ _ _ h hcsv
    revert this
    decide +kernel

end Reconciliation.Infrastructure
