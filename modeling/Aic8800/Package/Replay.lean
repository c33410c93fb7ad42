import Aic8800.Package.Publish
import Mathlib

/-! # A build that was killed

What a formal build leaves on disk at any of its steps is told here by one invariant: outside its own
temporary directories only what is to be published is added, and nothing is overwritten. So the next
build with the same inputs finds nothing in its way.
-/

namespace Aic8800.Package.Publish

open Lib Loop

/-! ## What a build writes -/

section Invariant

variable (j : Job) (tmp : Temps)

/-- What is to be found on disk when the build has returned. -/
def publications : List (Path × Node) :=
  [(j.output, .dir), (j.path, .file j.bytes), (j.receipt, .file j.receiptBytes)] ++
    j.artifact.toList.map fun o => (o.path, .file j.bytes)

/-- What the build writes and removes again. -/
def scratch : List Path :=
  [temporary j tmp, candidate j tmp, receiptCandidate j tmp] ++
    j.artifact.toList.flatMap fun o => [runTemporary tmp o, runCandidate tmp o]

/-- What `mkdtemp` makes is new, and so is all in it. -/
def Fresh (fs : Fs) : Prop := ∀ p ∈ scratch j tmp, fs p = none

/-- From the first state on, a build writes only what is to be found in the end, and only where
    nothing is. -/
def Extends (fs later : Fs) : Prop :=
  ∀ p ∉ scratch j tmp, later p = fs p ∨
    fs p = none ∧ ∃ node, (p, node) ∈ publications j ∧ later p = some node

/-- The output of an independent run is accepted. -/
def Taken (fs : Fs) : Prop := ∀ o ∈ j.artifact, o.accepted fs

/-- The tarball and the receipt are where they belong. -/
structure Published (fs : Fs) : Prop where
  output : fs j.output = some .dir
  path : fs j.path = some (.file j.bytes)
  receipt : fs j.receipt = some (.file j.receiptBytes)
  checked : j.check j.bytes = .ok ()

/-- What is known of the disk at each point. -/
def Known (fs : Fs) : Point → Prop
  | .start | .mkdir | .leave (some _) | .raised _ => True
  | .mkdtemp | .pack => fs j.output = some .dir
  | .check => fs j.output = some .dir ∧ fs (candidate j tmp) = some (.file j.bytes)
  | .compare | .linkArtifact =>
      fs j.output = some .dir ∧ fs (candidate j tmp) = some (.file j.bytes) ∧
        j.check j.bytes = .ok ()
  | .writeReceipt =>
      fs j.output = some .dir ∧ fs j.path = some (.file j.bytes) ∧ j.check j.bytes = .ok ()
  | .linkReceipt =>
      fs j.output = some .dir ∧ fs j.path = some (.file j.bytes) ∧ j.check j.bytes = .ok () ∧
        fs (receiptCandidate j tmp) = some (.file j.receiptBytes)
  | .leave none => Published j fs
  | .runMkdtemp o | .copy o => j.artifact = some o ∧ Published j fs
  | .runCheck o | .linkRun o =>
      j.artifact = some o ∧ Published j fs ∧ fs (runCandidate tmp o) = some (.file j.bytes)
  | .runLeave o none =>
      j.artifact = some o ∧ Published j fs ∧ fs o.path = some (.file j.bytes)
  | .runLeave o (some _) => j.artifact = some o
  | .returned p report =>
      Published j fs ∧ p = (j.artifact.map RunOutput.path).getD j.path ∧
        report = j.report j.bytes ∧ ∀ o ∈ j.artifact, fs o.path = some (.file j.bytes)

/-- What is known of the first state at each point. -/
def Begun (fs later : Fs) : Point → Prop
  | .start => later = fs
  | .raised _ => True
  | _ => Taken j fs

/-- What holds at each step of a build that starts with `fs`. -/
structure Good (fs : Fs) (s : State) : Prop where
  grown : Extends j tmp fs s.fs
  begun : Begun j fs s.fs s.point
  known : Known j tmp s.fs s.point

end Invariant

/-! ## Paths -/

section Paths

variable {j : Job} {tmp : Temps}

/-- The directories are hidden, and the files in them have the names of candidates. -/
def Hidden (last : Str) : Prop :=
  '.' ∉ last.tail ∧ last.head? = some '.' ∨ last = "package.tar.gz".toList ∨
    last = "receipt.json".toList

theorem scratch_last {p : Path} (h : p ∈ scratch j tmp) : ∃ last ∈ p.getLast?, Hidden last := by
  have package : Hidden (".package-".toList ++ tmp.package) :=
    .inl ⟨by simpa using tmp.plain.1, rfl⟩
  have driverRun : Hidden (".driver-run-".toList ++ tmp.driverRun) :=
    .inl ⟨by simpa using tmp.plain.2, rfl⟩
  have tarball : Hidden "package.tar.gz".toList := .inr (.inl rfl)
  simp only [scratch, List.mem_append, List.mem_cons, List.not_mem_nil, or_false,
    List.mem_flatMap] at h
  obtain (rfl | rfl | rfl) | ⟨o, -, rfl | rfl⟩ := h
  · exact ⟨_, List.getLast?_concat, package⟩
  · exact ⟨_, List.getLast?_concat, tarball⟩
  · exact ⟨_, List.getLast?_concat, .inr (.inr rfl)⟩
  · exact ⟨_, List.getLast?_concat, driverRun⟩
  · exact ⟨_, List.getLast?_concat, tarball⟩

theorem not_scratch {parent : Path} {last : Str} (plain : ¬Hidden last) :
    parent ++ [last] ∉ scratch j tmp := by
  intro inside
  obtain ⟨other, found, hidden⟩ := scratch_last inside
  obtain rfl := Option.some.inj (List.getLast?_concat.symm.trans found)
  exact plain hidden

theorem not_hidden {last : Str} (u : last.head? = some 'u') : ¬Hidden last := by
  rintro (⟨-, dot⟩ | rfl | rfl)
  · cases u.symm.trans dot
  · cases u
  · cases u

theorem path_not_scratch : j.path ∉ scratch j tmp := not_scratch (not_hidden rfl)

theorem receipt_not_scratch : j.receipt ∉ scratch j tmp := not_scratch (not_hidden rfl)

theorem output_not_scratch : j.output ∉ scratch j tmp :=
  not_scratch (by simp [Hidden])

theorem output_ne_path : j.output ≠ j.path := by
  intro same
  simpa [Job.path] using congrArg List.length same

theorem output_ne_receipt : j.output ≠ j.receipt := by
  intro same
  simpa [Job.receipt] using congrArg List.length same

theorem tarball_dot {name : Str} (h : ".tar.gz".toList <:+ name) : '.' ∈ name.tail := by
  obtain ⟨start, rfl⟩ := h
  cases start with
  | nil => decide
  | cons c rest => exact List.mem_append_right rest (by decide)

theorem tarball_ne {name hidden : Str} (h : ".tar.gz".toList <:+ name) (plain : '.' ∉ hidden.tail) :
    name ≠ hidden := by
  rintro rfl
  exact plain (tarball_dot h)

theorem run_ne_candidate {o : RunOutput} : o.path ≠ runCandidate tmp o := by
  intro same
  simpa [RunOutput.path, runCandidate, runTemporary] using congrArg List.length same

variable (tmp) in
theorem run_ne_temporary {o : RunOutput} (h : ".tar.gz".toList <:+ o.name) :
    o.path ≠ runTemporary tmp o := by
  intro same
  have last := (List.cons.inj (List.append_cancel_left same)).1
  exact tarball_ne h (by simpa using tmp.plain.2) last

theorem temporary_mem : temporary j tmp ∈ scratch j tmp := by simp [scratch]

theorem candidate_mem : candidate j tmp ∈ scratch j tmp := by simp [scratch]

theorem receiptCandidate_mem : receiptCandidate j tmp ∈ scratch j tmp := by simp [scratch]

variable (tmp) in
theorem run_mem {o : RunOutput} (h : j.artifact = some o) :
    runTemporary tmp o ∈ scratch j tmp ∧ runCandidate tmp o ∈ scratch j tmp := by
  simp [scratch, h]

end Paths

/-! ## Steps -/

section Steps

namespace Fs

variable {fs : Fs} {p q : Path} {node : Node}

@[simp] theorem put_same : fs.put p node p = some node := Function.update_self ..

@[simp] theorem put_other (h : q ≠ p) : fs.put p node q = fs q := Function.update_of_ne h ..

@[simp] theorem remove_same : fs.remove p p = none := Function.update_self ..

@[simp] theorem remove_other (h : q ≠ p) : fs.remove p q = fs q := Function.update_of_ne h ..

theorem readBytes_file {data : Bytes} (h : fs p = some (.file data)) : fs.readBytes p = .ok data := by
  simp [readBytes, h]

/-- A link is made where nothing is, and else what is there is the same. -/
theorem publish_cases {source target : Path} {data : Bytes} {message : Str} {after : Fs}
    (there : fs source = some (.file data)) (h : fs.publish source target data message = .ok after) :
    fs target = none ∧ after = fs.put target (.file data) ∨
      fs target = some (.file data) ∧ after = fs := by
  unfold publish at h
  split at h
  next free =>
      rw [readBytes_file there] at h
      exact .inl ⟨free, (Except.ok.inj h).symm⟩
  next found known =>
      split at h
      next same => exact .inr ⟨same ▸ known, (Except.ok.inj h).symm⟩
      next => cases h
  next => cases h
  next => cases h

end Fs

variable {j : Job} {tmp : Temps} {fs later : Fs} {p : Path} {node : Node}

namespace Extends

theorem put_scratch (h : Extends j tmp fs later) (inside : p ∈ scratch j tmp) :
    Extends j tmp fs (later.put p node) := by
  intro q outside
  rw [Fs.put_other (ne_of_mem_of_not_mem inside outside).symm]
  exact h q outside

theorem remove_scratch (h : Extends j tmp fs later) (inside : p ∈ scratch j tmp) :
    Extends j tmp fs (later.remove p) := by
  intro q outside
  rw [Fs.remove_other (ne_of_mem_of_not_mem inside outside).symm]
  exact h q outside

theorem put_new (h : Extends j tmp fs later) (free : later p = none)
    (part : (p, node) ∈ publications j) : Extends j tmp fs (later.put p node) := by
  intro q outside
  by_cases same : q = p
  · subst same
    right
    refine ⟨?_, node, part, Fs.put_same⟩
    obtain kept | ⟨first, -⟩ := h q outside
    · exact kept ▸ free
    · exact first
  · rw [Fs.put_other same]
    exact h q outside

end Extends

/-- A file at its place is not a candidate. -/
theorem put_kept (inside : p ∈ scratch j tmp) {q : Path} (outside : q ∉ scratch j tmp)
    {data : Option Node} (h : later q = data) : later.put p node q = data :=
  (Fs.put_other (ne_of_mem_of_not_mem inside outside).symm).trans h

theorem remove_kept (inside : p ∈ scratch j tmp) {q : Path} (outside : q ∉ scratch j tmp)
    {data : Option Node} (h : later q = data) : later.remove p q = data :=
  (Fs.remove_other (ne_of_mem_of_not_mem inside outside).symm).trans h

theorem put_outside (inside : p ∈ scratch j tmp) {q : Path} (outside : q ∉ scratch j tmp)
    {data : Option Node} (h : later p = data) : later.put q node p = data :=
  (Fs.put_other (ne_of_mem_of_not_mem inside outside)).trans h

theorem put_free (free : later p = none) {q : Path} {data : Node} (h : later q = some data) :
    later.put p node q = some data := by
  refine (Fs.put_other ?_).trans h
  rintro rfl
  cases free.symm.trans h

namespace Published

theorem put (h : Published j later) (inside : p ∈ scratch j tmp) :
    Published j (later.put p node) where
  output := put_kept inside output_not_scratch h.output
  path := put_kept inside path_not_scratch h.path
  receipt := put_kept inside receipt_not_scratch h.receipt
  checked := h.checked

theorem remove (h : Published j later) (inside : p ∈ scratch j tmp) :
    Published j (later.remove p) where
  output := remove_kept inside output_not_scratch h.output
  path := remove_kept inside path_not_scratch h.path
  receipt := remove_kept inside receipt_not_scratch h.receipt
  checked := h.checked

theorem put_new (h : Published j later) (free : later p = none) : Published j (later.put p node) where
  output := put_free free h.output
  path := put_free free h.path
  receipt := put_free free h.receipt
  checked := h.checked

end Published

theorem map_ok {α β : Type} {f : α → β} {x : Except PyError α} {b : β} (h : x.map f = .ok b) :
    ∃ a, x = .ok a ∧ f a = b := by
  cases x with
  | ok a => exact ⟨a, rfl, Except.ok.inj h⟩
  | error e => cases h

theorem bind_ok {α β : Type} {f : α → Except PyError β} {x : Except PyError α} {b : β}
    (h : x.bind f = .ok b) : ∃ a, x = .ok a ∧ f a = .ok b := by
  cases x with
  | ok a => exact ⟨a, rfl, h⟩
  | error e => cases h

theorem good_within {s : State} {result : Except PyError Fs} {next : Point} (took : Taken j fs)
    (grown : Extends j tmp fs s.fs)
    (then' : ∀ after, result = .ok after → Good j tmp fs ⟨after, next⟩) :
    Good j tmp fs (within s result next) := by
  cases result with
  | ok after => exact then' after rfl
  | error e => exact ⟨grown, took, trivial⟩

theorem good_withinRun {s : State} {o : RunOutput} {result : Except PyError Fs} {next : Point}
    (took : Taken j fs) (run : j.artifact = some o) (grown : Extends j tmp fs s.fs)
    (then' : ∀ after, result = .ok after → Good j tmp fs ⟨after, next⟩) :
    Good j tmp fs (withinRun s o result next) := by
  cases result with
  | ok after => exact then' after rfl
  | error e => exact ⟨grown, took, run⟩

theorem output_part : (j.output, Node.dir) ∈ publications j := by simp [publications]

theorem path_part : (j.path, Node.file j.bytes) ∈ publications j := by simp [publications]

theorem receipt_part : (j.receipt, Node.file j.receiptBytes) ∈ publications j := by
  simp [publications]

theorem run_part {o : RunOutput} (h : j.artifact = some o) :
    (o.path, Node.file j.bytes) ∈ publications j := by
  simp [publications, h]

theorem good_start (grown : Extends j tmp fs fs) {t : State}
    (taken : turn j tmp ⟨fs, .start⟩ = some t) : Good j tmp fs t := by
  simp only [turn] at taken
  split at taken
  next =>
      cases taken
      exact ⟨grown, trivial, trivial⟩
  next accepted =>
      have took : Taken j fs := by
        intro o here
        by_contra other
        exact accepted ⟨o, here, other⟩
      split at taken
      next =>
          cases taken
          exact ⟨grown, trivial, trivial⟩
      next =>
          cases taken
          exact ⟨grown, took, trivial⟩

theorem good_mkdir (grown : Extends j tmp fs later) (took : Taken j fs) {t : State}
    (taken : turn j tmp ⟨later, .mkdir⟩ = some t) : Good j tmp fs t := by
  simp only [turn] at taken
  split at taken
  next free =>
      cases taken
      exact ⟨grown.put_new free output_part, took, Fs.put_same⟩
  next there =>
      cases taken
      exact ⟨grown, took, there⟩
  next =>
      cases taken
      exact ⟨grown, trivial, trivial⟩

theorem good_mkdtemp (grown : Extends j tmp fs later) (took : Taken j fs)
    (output : later j.output = some .dir) {t : State}
    (taken : turn j tmp ⟨later, .mkdtemp⟩ = some t) : Good j tmp fs t := by
  simp only [turn] at taken
  split at taken
  next =>
      cases taken
      exact ⟨grown.put_scratch temporary_mem, took,
        put_kept temporary_mem output_not_scratch output⟩
  next =>
      cases taken
      exact ⟨grown, trivial, trivial⟩

theorem good_check (grown : Extends j tmp fs later) (took : Taken j fs)
    (output : later j.output = some .dir) (packed : later (candidate j tmp) = some (.file j.bytes))
    {t : State} (taken : turn j tmp ⟨later, .check⟩ = some t) : Good j tmp fs t := by
  obtain rfl := Option.some.inj taken
  refine good_within took grown fun after done => ?_
  rw [Fs.readBytes_file packed] at done
  obtain ⟨_, checked, rfl⟩ := map_ok done
  exact ⟨grown, took, output, packed, checked⟩

theorem good_linkArtifact (grown : Extends j tmp fs later) (took : Taken j fs)
    (output : later j.output = some .dir) (packed : later (candidate j tmp) = some (.file j.bytes))
    (checked : j.check j.bytes = .ok ()) {t : State}
    (taken : turn j tmp ⟨later, .linkArtifact⟩ = some t) : Good j tmp fs t := by
  obtain rfl := Option.some.inj taken
  refine good_within took grown fun after done => ?_
  rw [Fs.readBytes_file packed] at done
  obtain ⟨free, rfl⟩ | ⟨there, rfl⟩ := Fs.publish_cases packed done
  · exact ⟨grown.put_new free path_part, took, put_free free output, Fs.put_same, checked⟩
  · exact ⟨grown, took, output, there, checked⟩

theorem good_linkReceipt (grown : Extends j tmp fs later) (took : Taken j fs)
    (output : later j.output = some .dir) (path : later j.path = some (.file j.bytes))
    (checked : j.check j.bytes = .ok ())
    (written : later (receiptCandidate j tmp) = some (.file j.receiptBytes)) {t : State}
    (taken : turn j tmp ⟨later, .linkReceipt⟩ = some t) : Good j tmp fs t := by
  obtain rfl := Option.some.inj taken
  refine good_within took grown fun after done => ?_
  obtain ⟨free, rfl⟩ | ⟨there, rfl⟩ := Fs.publish_cases written done
  · exact ⟨grown.put_new free receipt_part, took, put_free free output, put_free free path,
      Fs.put_same, checked⟩
  · exact ⟨grown, took, output, path, there, checked⟩

theorem good_leave (grown : Extends j tmp fs later) (took : Taken j fs) {raised : Option PyError}
    (known : Known j tmp later (.leave raised)) {t : State}
    (taken : turn j tmp ⟨later, .leave raised⟩ = some t) : Good j tmp fs t := by
  have less := ((grown.remove_scratch candidate_mem).remove_scratch
    receiptCandidate_mem).remove_scratch temporary_mem
  cases raised with
  | some e =>
      obtain rfl := Option.some.inj taken
      exact ⟨less, trivial, trivial⟩
  | none =>
      have published : Published j later := known
      have fewer := published.remove (candidate_mem : candidate j tmp ∈ _)
      have fewer' := fewer.remove (receiptCandidate_mem : receiptCandidate j tmp ∈ _)
      have kept := fewer'.remove (temporary_mem : temporary j tmp ∈ _)
      cases run : j.artifact with
      | none =>
          simp only [turn, run, Option.some.injEq] at taken
          subst taken
          exact ⟨less, took, kept, by simp [run], rfl, by simp [run]⟩
      | some o =>
          simp only [turn, run, Option.some.injEq] at taken
          subst taken
          exact ⟨less, took, run, kept⟩

theorem good_runMkdtemp (grown : Extends j tmp fs later) (took : Taken j fs) {o : RunOutput}
    (run : j.artifact = some o) (published : Published j later) {t : State}
    (taken : turn j tmp ⟨later, .runMkdtemp o⟩ = some t) : Good j tmp fs t := by
  simp only [turn] at taken
  split at taken
  next =>
      cases taken
      exact ⟨grown.put_scratch (run_mem tmp run).1, took, run, published.put (run_mem tmp run).1⟩
  next =>
      cases taken
      exact ⟨grown, trivial, trivial⟩

theorem good_copy (grown : Extends j tmp fs later) (took : Taken j fs) {o : RunOutput}
    (run : j.artifact = some o) (published : Published j later) {t : State}
    (taken : turn j tmp ⟨later, .copy o⟩ = some t) : Good j tmp fs t := by
  have inside := (run_mem tmp run).2
  obtain rfl := Option.some.inj taken
  refine good_withinRun took run grown fun after done => ?_
  rw [Fs.readBytes_file published.path] at done
  obtain rfl := Except.ok.inj done
  exact ⟨grown.put_scratch inside, took, run, published.put inside, Fs.put_same⟩

theorem good_runCheck (grown : Extends j tmp fs later) (took : Taken j fs) {o : RunOutput}
    (run : j.artifact = some o) (published : Published j later)
    (copied : later (runCandidate tmp o) = some (.file j.bytes)) {t : State}
    (taken : turn j tmp ⟨later, .runCheck o⟩ = some t) : Good j tmp fs t := by
  obtain rfl := Option.some.inj taken
  refine good_withinRun took run grown fun after done => ?_
  obtain ⟨data, -, verified⟩ := bind_ok done
  obtain ⟨report, -, same⟩ := bind_ok verified
  split at same
  next =>
      obtain rfl := Except.ok.inj same
      exact ⟨grown, took, run, published, copied⟩
  next => cases same

theorem good_linkRun (grown : Extends j tmp fs later) (took : Taken j fs) {o : RunOutput}
    (run : j.artifact = some o) (published : Published j later)
    (copied : later (runCandidate tmp o) = some (.file j.bytes)) {t : State}
    (taken : turn j tmp ⟨later, .linkRun o⟩ = some t) : Good j tmp fs t := by
  obtain rfl := Option.some.inj taken
  refine good_withinRun took run grown fun after done => ?_
  rw [Fs.readBytes_file copied] at done
  obtain ⟨free, rfl⟩ | ⟨there, rfl⟩ := Fs.publish_cases copied done
  · exact ⟨grown.put_new free (run_part run), took, run, published.put_new free, Fs.put_same⟩
  · exact ⟨grown, took, run, published, there⟩

theorem good_runLeave (grown : Extends j tmp fs later) (took : Taken j fs) {o : RunOutput}
    {raised : Option PyError} (known : Known j tmp later (.runLeave o raised)) {t : State}
    (taken : turn j tmp ⟨later, .runLeave o raised⟩ = some t) : Good j tmp fs t := by
  cases raised with
  | some e =>
      obtain ⟨inside, inside'⟩ := run_mem tmp known
      obtain rfl := Option.some.inj taken
      exact ⟨(grown.remove_scratch inside').remove_scratch inside, trivial, trivial⟩
  | none =>
      obtain ⟨run, published, there⟩ := known
      obtain ⟨inside, inside'⟩ := run_mem tmp run
      have kept := (published.remove inside').remove inside
      have alone := run_ne_temporary tmp (took o run).2.1
      obtain rfl := Option.some.inj taken
      have less := (grown.remove_scratch inside').remove_scratch inside
      refine ⟨less, took, kept, by simp [run], rfl, ?_⟩
      intro o' same
      obtain rfl := Option.some.inj (run.symm.trans same)
      exact (Fs.remove_other alone).trans ((Fs.remove_other run_ne_candidate).trans there)

/-- One step of a build writes only what belongs on disk. -/
theorem good_turn {s t : State} (good : Good j tmp fs s) (taken : turn j tmp s = some t) :
    Good j tmp fs t := by
  obtain ⟨later, point⟩ := s
  obtain ⟨grown, begun, known⟩ := good
  cases point with
  | start =>
      obtain rfl : later = fs := begun
      exact good_start grown taken
  | mkdir => exact good_mkdir grown begun taken
  | mkdtemp => exact good_mkdtemp grown begun known taken
  | pack =>
      obtain rfl := Option.some.inj taken
      exact ⟨grown.put_scratch candidate_mem, begun,
        put_kept candidate_mem output_not_scratch known, Fs.put_same⟩
  | check => exact good_check grown begun known.1 known.2 taken
  | compare =>
      obtain rfl := Option.some.inj taken
      refine good_within begun grown fun after done => ?_
      obtain ⟨_, -, rfl⟩ := map_ok done
      exact ⟨grown, begun, known⟩
  | linkArtifact => exact good_linkArtifact grown begun known.1 known.2.1 known.2.2 taken
  | writeReceipt =>
      obtain ⟨output, path, checked⟩ := known
      obtain rfl := Option.some.inj taken
      exact ⟨grown.put_scratch receiptCandidate_mem, begun,
        put_kept receiptCandidate_mem output_not_scratch output,
        put_kept receiptCandidate_mem path_not_scratch path, checked, Fs.put_same⟩
  | linkReceipt =>
      obtain ⟨output, path, checked, written⟩ := known
      exact good_linkReceipt grown begun output path checked written taken
  | leave raised => exact good_leave grown begun known taken
  | runMkdtemp o => exact good_runMkdtemp grown begun known.1 known.2 taken
  | copy o => exact good_copy grown begun known.1 known.2 taken
  | runCheck o => exact good_runCheck grown begun known.1 known.2.1 known.2.2 taken
  | linkRun o => exact good_linkRun grown begun known.1 known.2.1 known.2.2 taken
  | runLeave o raised => exact good_runLeave grown begun known taken
  | returned p report => cases taken
  | raised e => cases taken

end Steps

/-! ## Runs -/

section Runs

variable {j : Job} {tmp : Temps} {fs later : Fs} {s t : State}

/-- The steps that are left after a point. -/
def Point.rank : Point → Nat
  | .start => 15
  | .mkdir => 14
  | .mkdtemp => 13
  | .pack => 12
  | .check => 11
  | .compare => 10
  | .linkArtifact => 9
  | .writeReceipt => 8
  | .linkReceipt => 7
  | .leave _ => 6
  | .runMkdtemp _ => 5
  | .copy _ => 4
  | .runCheck _ => 3
  | .linkRun _ => 2
  | .runLeave _ _ => 1
  | .returned _ _ | .raised _ => 0

theorem rank_within {result : Except PyError Fs} {next : Point} {n : Nat} (more : 6 < n)
    (below : next.rank < n) : (within s result next).point.rank < n := by
  cases result with
  | ok after => exact below
  | error e => exact more

theorem rank_withinRun {o : RunOutput} {result : Except PyError Fs} {next : Point} {n : Nat}
    (more : 1 < n) (below : next.rank < n) : (withinRun s o result next).point.rank < n := by
  cases result with
  | ok after => exact below
  | error e => exact more

theorem rank_turn (taken : turn j tmp s = some t) : t.point.rank < s.point.rank := by
  obtain ⟨now, point⟩ := s
  cases point with
  | start | mkdir | mkdtemp | runMkdtemp =>
      simp only [turn] at taken
      split at taken <;> (try split at taken) <;> cases taken <;> simp [Point.rank]
  | pack | writeReceipt =>
      cases taken
      simp [Point.rank]
  | check | compare | linkArtifact | linkReceipt =>
      cases taken
      exact rank_within (by simp [Point.rank]) (by simp [Point.rank])
  | copy | runCheck | linkRun =>
      cases taken
      exact rank_withinRun (by simp [Point.rank]) (by simp [Point.rank])
  | leave raised =>
      simp only [turn] at taken
      split at taken <;> cases taken <;> simp [Point.rank]
  | runLeave o raised =>
      cases raised <;> cases taken <;> simp [Point.rank]
  | returned | raised => cases taken

/-- A build comes to an end. -/
theorem build_ends (j : Job) (tmp : Temps) (s : State) : ∃ t, Exits (turn j tmp) s t := by
  induction rank : s.point.rank using Nat.strongRecOn generalizing s with
  | ind n ih =>
      cases taken : turn j tmp s with
      | none => exact ⟨s, .leave taken⟩
      | some t =>
          obtain ⟨u, exits⟩ := ih _ (rank ▸ rank_turn taken) t rfl
          exact ⟨u, .next taken exits⟩

theorem good_first (j : Job) (tmp : Temps) (fs : Fs) : Good j tmp fs ⟨fs, .start⟩ :=
  ⟨fun _ _ => .inl rfl, rfl, trivial⟩

/-- What holds whenever a build can be killed. -/
theorem good_head (head : Head (turn j tmp) ⟨fs, .start⟩ s) : Good j tmp fs s := by
  induction head with
  | start => exact good_first j tmp fs
  | next _ taken ih => exact good_turn ih taken

/-- What a build needs on disk. -/
structure Accepts (j : Job) (fs : Fs) : Prop where
  taken : Taken j fs
  checked : j.check j.bytes = .ok ()
  ready : ∀ part ∈ publications j, fs part.1 = none ∨ fs part.1 = some part.2

/-- The last character of a path. -/
def ending (p : Path) : Option Char := p.getLast?.bind List.getLast?

/-- The names tell the publications apart. -/
def publication (j : Job) (p : Path) : Node :=
  if ending p = some 't' then .dir
  else if ending p = some 'n' then .file j.receiptBytes
  else .file j.bytes

theorem tarball_last {name : Str} (h : ".tar.gz".toList <:+ name) : name.getLast? = some 'z' := by
  obtain ⟨start, rfl⟩ := h
  simp

theorem publication_eq (took : Taken j fs) {part : Path × Node} (h : part ∈ publications j) :
    part.2 = publication j part.1 := by
  have last : ∀ parent name, ending (parent ++ [name]) = name.getLast? := by simp [ending]
  simp only [publications, List.mem_append, List.mem_cons, List.not_mem_nil, or_false,
    List.mem_map, Option.mem_toList] at h
  obtain (rfl | rfl | rfl) | ⟨o, run, rfl⟩ := h
  · simp [publication, Job.output, last]
  · have z := tarball_last ⟨_, (rfl : _ = j.name)⟩
    simp [publication, Job.path, last, z]
  · simp [publication, Job.receipt, last]
  · have z := tarball_last (took o run).2.1
    simp [publication, RunOutput.path, last, z]

theorem run_not_scratch (took : Taken j fs) (fresh : Fresh j tmp fs) {o : RunOutput}
    (run : j.artifact = some o) : o.path ∉ scratch j tmp := by
  obtain ⟨-, tarball, parent, -⟩ := took o run
  have outside : o.parent ≠ temporary j tmp := by
    intro same
    have free := fresh _ temporary_mem
    rw [← same, parent] at free
    cases free
  intro inside
  simp only [scratch, run, List.mem_append, List.mem_cons, List.not_mem_nil, or_false,
    Option.toList_some, List.flatMap_cons, List.flatMap_nil, List.append_nil] at inside
  obtain (same | same | same) | same | same := inside
  · obtain ⟨-, last⟩ := List.append_inj' same rfl
    exact tarball_ne tarball (by simpa using tmp.plain.1) (List.cons.inj last).1
  · exact outside (List.append_inj' same rfl).1
  · exact outside (List.append_inj' same rfl).1
  · exact run_ne_temporary tmp tarball same
  · exact run_ne_candidate same

theorem part_not_scratch (took : Taken j fs) (fresh : Fresh j tmp fs) {part : Path × Node}
    (h : part ∈ publications j) : part.1 ∉ scratch j tmp := by
  simp only [publications, List.mem_append, List.mem_cons, List.not_mem_nil, or_false,
    List.mem_map, Option.mem_toList] at h
  obtain (rfl | rfl | rfl) | ⟨o, run, rfl⟩ := h
  · exact output_not_scratch
  · exact path_not_scratch
  · exact receipt_not_scratch
  · exact run_not_scratch took fresh run

/-- Where something is to be published, a build that can return does not find anything else. -/
theorem Accepts.target (accepts : Accepts j fs) (fresh : Fresh j tmp fs)
    (grown : Extends j tmp fs later) {part : Path × Node} (h : part ∈ publications j) :
    later part.1 = none ∨ later part.1 = some part.2 := by
  obtain kept | ⟨-, node, other, there⟩ := grown _ (part_not_scratch accepts.taken fresh h)
  · rw [kept]
    exact accepts.ready part h
  · right
    rw [there, publication_eq accepts.taken h]
    exact congrArg some (publication_eq accepts.taken other)

theorem taken_later (took : Taken j fs) (fresh : Fresh j tmp fs) (grown : Extends j tmp fs later) :
    Taken j later := by
  intro o run
  obtain ⟨canonical, tarball, parent, link⟩ := took o run
  refine ⟨canonical, tarball, ?_, ?_⟩
  · have outside : o.parent ∉ scratch j tmp := by
      intro inside
      cases parent.symm.trans (fresh _ inside)
    obtain kept | ⟨free, -⟩ := grown _ outside
    · exact kept.trans parent
    · cases parent.symm.trans free
  · obtain kept | ⟨-, node, part, there⟩ := grown _ (run_not_scratch took fresh run)
    · rw [kept]
      exact link
    · have same := (publication_eq took part).trans (publication_eq took (run_part run)).symm
      dsimp only at same
      rw [there, same]
      simp

/-- A build that can return has not raised, and its directories are still to be made. -/
def Clear (j : Job) (tmp : Temps) (fs : Fs) : Point → Prop
  | .start | .mkdir | .mkdtemp => ∀ p ∈ scratch j tmp, fs p = none
  | .pack | .check | .compare | .linkArtifact | .writeReceipt | .linkReceipt | .leave none
  | .runMkdtemp _ => ∀ o ∈ j.artifact, fs (runTemporary tmp o) = none
  | .copy _ | .runCheck _ | .linkRun _ | .runLeave _ none | .returned _ _ => True
  | .leave (some _) | .runLeave _ (some _) | .raised _ => False

theorem runTemporary_ne_candidate {o : RunOutput} : runTemporary tmp o ≠ candidate j tmp := by
  intro same
  cases (List.append_inj' same rfl).2

theorem runTemporary_ne_receiptCandidate {o : RunOutput} :
    runTemporary tmp o ≠ receiptCandidate j tmp := by
  intro same
  cases (List.append_inj' same rfl).2

theorem runTemporary_ne_temporary {o : RunOutput} : runTemporary tmp o ≠ temporary j tmp := by
  intro same
  cases (List.append_inj' same rfl).2

theorem put_clear (clear : ∀ o ∈ j.artifact, later (runTemporary tmp o) = none) {p : Path}
    {node : Node} (other : ∀ o ∈ j.artifact, runTemporary tmp o ≠ p) :
    ∀ o ∈ j.artifact, later.put p node (runTemporary tmp o) = none :=
  fun o run => (Fs.put_other (other o run)).trans (clear o run)

theorem publish_same {source target : Path} {data : Bytes} {message : Str}
    (there : later source = some (.file data))
    (free : later target = none ∨ later target = some (.file data)) :
    later.publish source target data message = .ok (later.put target (.file data)) := by
  unfold Fs.publish
  obtain free | known := free
  · rw [free]
    simp only [Fs.readBytes_file there]
    rfl
  · rw [known]
    have same : later.put target (.file data) = later := Function.update_eq_self_iff.mpr known.symm
    simp [same]

/-- The report is on a tarball with the files of the job, and nothing else. -/
theorem verifyTar_ok {data : Bytes} {report : Json} : j.verifyTar data = .ok report ↔
    j.report data = report ∧ ∃ entries, j.read data = some entries ∧
      (entries.map Member.name).Perm (j.files.map fun item => packagePrefix ++ ['/'] ++ item.1) ∧
      entries.all j.checkMember = true := by
  unfold Job.verifyTar
  cases j.read data with
  | none =>
      constructor
      · nofun
      · rintro ⟨-, entries, none', -⟩
        cases none'
  | some entries =>
      simp only [Option.some.injEq, exists_eq_left']
      by_cases names : (entries.map Member.name).Perm
          (j.files.map fun item => packagePrefix ++ ['/'] ++ item.1)
      · rw [if_neg (not_not_intro names)]
        cases all : entries.all j.checkMember with
        | false =>
            constructor
            · nofun
            · rintro ⟨-, -, other⟩
              cases other
        | true =>
            rw [if_neg Bool.noConfusion, Except.ok.injEq, and_iff_left ⟨names, rfl⟩]
      · rw [if_pos names]
        constructor
        · nofun
        · exact fun h => absurd h.2.1 names

theorem check_verified {data : Bytes} (h : j.check data = .ok ()) :
    j.verifyTar data = .ok (j.report data) := by
  have unchanged : j.again = j.value := by
    by_contra other
    rw [Job.check, if_pos other] at h
    cases h
  rw [Job.check, if_neg (not_not.mpr unchanged)] at h
  obtain ⟨report, verified, -⟩ := bind_ok h
  exact verifyTar_ok.mpr ⟨rfl, (verifyTar_ok.mp verified).2⟩

theorem check_same {data : Bytes} (again : j.again = j.value)
    (verified : j.verifyTar data = .ok (j.report data)) (core : j.core data = j.report data) :
    j.check data = .ok () := by
  rw [Job.check, if_neg (not_not.mpr again), verified]
  exact if_neg (not_not.mpr core)

theorem compare_same (path : later j.path = none ∨ later j.path = some (.file j.bytes))
    (receipt : later j.receipt = none ∨ later j.receipt = some (.file j.receiptBytes)) :
    j.compare later = .ok () := by
  unfold Job.compare
  have plain : ¬(later j.path = some .symlink ∨ later j.receipt = some .symlink) := by
    obtain path | path := path <;> obtain receipt | receipt := receipt <;> simp [path, receipt]
  rw [if_neg plain]
  obtain free | known := receipt
  · rw [if_pos free]
  · rw [if_neg (by simp [known]), Fs.readBytes_file known]
    show (if j.receiptBytes ≠ j.receiptBytes then _ else _) = _
    simp

/-- The temporary directory of the run is not among what is removed. -/
theorem clear_leave (clear : Clear j tmp later (.leave none))
    (taken : turn j tmp ⟨later, .leave none⟩ = some t) : Clear j tmp t.fs t.point := by
  cases run : j.artifact with
  | none =>
      simp only [turn, run] at taken
      cases taken
      exact trivial
  | some o =>
      simp only [turn, run] at taken
      cases taken
      intro o' run'
      have free := clear o' run'
      exact (Fs.remove_other runTemporary_ne_temporary).trans
        ((Fs.remove_other runTemporary_ne_receiptCandidate).trans
          ((Fs.remove_other runTemporary_ne_candidate).trans free))

theorem clear_turn (accepts : Accepts j fs) (fresh : Fresh j tmp fs) (good : Good j tmp fs s)
    (clear : Clear j tmp s.fs s.point) (taken : turn j tmp s = some t) :
    Clear j tmp t.fs t.point := by
  obtain ⟨later, point⟩ := s
  obtain ⟨grown, begun, known⟩ := good
  have output := accepts.target fresh grown output_part
  have path := accepts.target fresh grown path_part
  have receipt := accepts.target fresh grown receipt_part
  dsimp only at clear output path receipt
  cases point with
  | start =>
      have took := taken_later accepts.taken fresh grown
      have all : ¬∃ o ∈ j.artifact, ¬o.accepted later := by
        rintro ⟨o, run, other⟩
        exact other (took o run)
      have plain : later j.output ≠ some .symlink := by
        obtain output | output := output <;> simp [output]
      simp only [turn, if_neg all, if_neg plain] at taken
      cases taken
      exact clear
  | mkdir =>
      obtain output | output := output
      · simp only [turn, output] at taken
        cases taken
        intro p inside
        exact put_outside inside output_not_scratch (clear p inside)
      · simp only [turn, output] at taken
        cases taken
        exact clear
  | mkdtemp =>
      simp only [turn, if_pos (clear _ temporary_mem)] at taken
      cases taken
      exact put_clear (fun o run => clear _ (run_mem tmp run).1) fun o _ => runTemporary_ne_temporary
  | pack =>
      cases taken
      exact put_clear clear fun o _ => runTemporary_ne_candidate
  | check =>
      simp only [turn, Fs.readBytes_file known.2, Except.bind, accepts.checked, Except.map,
        within] at taken
      cases taken
      exact clear
  | compare =>
      simp only [turn, compare_same path receipt, Except.map, within] at taken
      cases taken
      exact clear
  | linkArtifact =>
      simp only [turn, Fs.readBytes_file known.2.1, Except.bind, publish_same known.2.1 path,
        within] at taken
      cases taken
      exact put_clear clear fun o run => ne_of_mem_of_not_mem (run_mem tmp run).1 path_not_scratch
  | writeReceipt =>
      cases taken
      exact put_clear clear fun o _ => runTemporary_ne_receiptCandidate
  | linkReceipt =>
      simp only [turn, publish_same known.2.2.2 receipt, within] at taken
      cases taken
      exact put_clear clear fun o run => ne_of_mem_of_not_mem (run_mem tmp run).1 receipt_not_scratch
  | leave raised =>
      cases raised with
      | some e => cases clear
      | none => exact clear_leave clear taken
  | runMkdtemp o =>
      simp only [turn, if_pos (clear o known.1)] at taken
      cases taken
      exact trivial
  | copy o =>
      simp only [turn, Fs.readBytes_file known.2.path, Except.map, withinRun] at taken
      cases taken
      exact trivial
  | runCheck o =>
      have verified := check_verified accepts.checked
      simp only [turn, Fs.readBytes_file known.2.2, Except.bind, verified, if_true, withinRun]
        at taken
      cases taken
      exact trivial
  | linkRun o =>
      have free := accepts.target fresh grown (run_part known.1)
      simp only [turn, Fs.readBytes_file known.2.2, Except.bind, publish_same known.2.2 free,
        withinRun] at taken
      cases taken
      exact trivial
  | runLeave o raised =>
      cases raised with
      | some e => cases clear
      | none =>
          cases taken
          exact trivial
  | returned p report => cases taken
  | raised e => cases taken

theorem clear_head (accepts : Accepts j fs) (fresh : Fresh j tmp fs)
    (head : Head (turn j tmp) ⟨fs, .start⟩ s) : Clear j tmp s.fs s.point := by
  induction head with
  | start => exact fresh
  | next before taken ih => exact clear_turn accepts fresh (good_head before) ih taken

theorem end_cases (exits : Exits (turn j tmp) s t) :
    (∃ p report, t.point = .returned p report) ∨ ∃ e, t.point = .raised e := by
  have left := exits.left
  obtain ⟨later, point⟩ := t
  cases point with
  | returned p report => exact .inl ⟨p, report, rfl⟩
  | raised e => exact .inr ⟨e, rfl⟩
  | start | mkdir | mkdtemp | runMkdtemp | leave | runLeave =>
      simp only [turn] at left
      repeat' split at left
      all_goals cases left
  | pack | check | compare | linkArtifact | writeReceipt | linkReceipt | copy | runCheck | linkRun =>
      cases left

/-- All that is to be found on disk is there. -/
theorem returned_parts (good : Good j tmp fs s) {p : Path} {report : Json}
    (here : s.point = .returned p report) {part : Path × Node} (h : part ∈ publications j) :
    s.fs part.1 = some part.2 := by
  have known := good.known
  rw [here] at known
  obtain ⟨published, -, -, runs⟩ := known
  simp only [publications, List.mem_append, List.mem_cons, List.not_mem_nil, or_false,
    List.mem_map, Option.mem_toList] at h
  obtain (rfl | rfl | rfl) | ⟨o, run, rfl⟩ := h
  · exact published.output
  · exact published.path
  · exact published.receipt
  · exact runs o run

/-- A build returns just where it finds nothing, or what it would write. -/
theorem returns_iff (fresh : Fresh j tmp fs) :
    (∃ s p report, Exits (turn j tmp) ⟨fs, .start⟩ s ∧ s.point = .returned p report) ↔
      Accepts j fs := by
  constructor
  · rintro ⟨s, p, report, exits, here⟩
    have good := good_head exits.head
    have took := good.begun
    have known := good.known
    rw [here] at took known
    refine ⟨took, known.1.checked, fun part h => ?_⟩
    have there := returned_parts good here h
    obtain kept | ⟨free, -⟩ := good.grown _ (part_not_scratch took fresh h)
    · exact .inr (kept ▸ there)
    · exact .inl free
  · intro accepts
    obtain ⟨s, exits⟩ := build_ends j tmp ⟨fs, .start⟩
    have clear := clear_head accepts fresh exits.head
    obtain ⟨p, report, here⟩ | ⟨e, here⟩ := end_cases exits
    · exact ⟨s, p, report, exits, here⟩
    · rw [here] at clear
      cases clear

end Runs

/-! ## What the files say of each other -/

section Contents

variable (j : Job)

/-- The members that are packed are those that `build` returns. -/
theorem Job.built : build j.lib j.value j.tree = some ((sortItems j.files).map tarMember) := by
  rw [build, j.inputs]
  rfl

theorem Job.files_nodup : (j.files.map Prod.fst).Nodup := by
  obtain ⟨⟨payload, native⟩, taken, packed⟩ := Option.bind_eq_some_iff.mp j.inputs
  obtain ⟨version, -, same⟩ := Option.map_eq_some_iff.mp packed
  obtain ⟨_, source, _, _, from'⟩ := sourcePayload_taken taken
  rw [Job.files, ← same]
  refine (((sortItems_perm _).map Prod.fst).symm.trans items_perm).nodup_iff.mpr ?_
  exact names_nodup from'

theorem Job.identified : ("build.json".toList, j.lib.encoded j.value, 0o644) ∈ j.files := by
  obtain ⟨⟨payload, native⟩, taken, packed⟩ := Option.bind_eq_some_iff.mp j.inputs
  obtain ⟨version, -, same⟩ := Option.map_eq_some_iff.mp packed
  rw [Job.files, ← same]
  simp [allFiles, addedFiles]

theorem member_name (item : Str × Bytes × Nat) :
    (tarMember item).name.drop (packagePrefix.length + 1) = item.1 := by
  simp [tarMember]

/-- What has been packed and can be read passes its own check. -/
theorem verifyTar_packed (h : j.read j.bytes = some ((sortItems j.files).map tarMember)) :
    j.verifyTar j.bytes = .ok (j.report j.bytes) := by
  have names : (((sortItems j.files).map tarMember).map Member.name).Perm
      (j.files.map fun item => packagePrefix ++ ['/'] ++ item.1) := by
    rw [List.map_map]
    exact (sortItems_perm _).map _
  have all : ((sortItems j.files).map tarMember).all j.checkMember = true := by
    simp only [List.all_map, List.all_eq_true]
    intro item member
    have found := lookup_of_mem j.files_nodup ((sortItems_perm _).mem_iff.mp member)
    simp [Job.checkMember, found, tarMember]
  exact verifyTar_ok.mpr ⟨rfl, _, h, names, all⟩

/-- The identity is in the tarball. -/
theorem verified_identity {data : Bytes} (h : j.verifyTar data = .ok (j.report data)) :
    ∃ entries, j.read data = some entries ∧
      ⟨packagePrefix ++ "/build.json".toList, .file (j.lib.encoded j.value), 0o644⟩ ∈ entries := by
  obtain ⟨-, entries, unpacked, names, all⟩ := verifyTar_ok.mp h
  have listed : packagePrefix ++ ['/'] ++ "build.json".toList ∈ entries.map Member.name := by
    rw [names.mem_iff]
    exact List.mem_map.mpr ⟨_, j.identified, rfl⟩
  obtain ⟨item, member, named⟩ := List.mem_map.mp listed
  have checked : j.checkMember item = true := List.all_eq_true.mp all item member
  have found := lookup_of_mem j.files_nodup j.identified
  have drop : item.name.drop (packagePrefix.length + 1) = "build.json".toList := by
    rw [named]
    exact member_name ("build.json".toList, [], 0)
  rw [Job.checkMember, drop, found] at checked
  obtain ⟨node, mode⟩ : item.node = .file (j.lib.encoded j.value) ∧ item.mode = 0o644 := by
    simpa using checked
  refine ⟨entries, unpacked, ?_⟩
  obtain ⟨name, _, _⟩ := item
  obtain rfl : name = _ := named
  obtain rfl : _ = _ := node
  obtain rfl : _ = _ := mode
  exact member

end Contents

/-! ## Builds and what is there before -/

section Replay

variable (j : Job) (tmp : Temps) (fs : Fs)

/-- One of the names is taken, by other bytes. -/
def Conflict : Prop :=
  (∃ data, fs j.path = some (.file data) ∧ data ≠ j.bytes) ∨
    ∃ data, fs j.receipt = some (.file data) ∧ data ≠ j.receiptBytes

/-- The tarball and the receipt tell of each other. -/
structure Described (p : Path) (report : Json) : Prop where
  receipt : fs j.receipt = some (.file (j.lib.encoded report))
  build : report.get "build".toList = some j.value
  artifact : ∃ data, fs j.path = some (.file data) ∧ fs p = some (.file data) ∧
    report.get "artifact_sha256".toList = some (.str (j.lib.digest data)) ∧
    report.get "artifact_bytes".toList = some (.int data.length) ∧
    ∃ entries, j.read data = some entries ∧
      ⟨packagePrefix ++ "/build.json".toList, .file (j.lib.encoded j.value), 0o644⟩ ∈ entries

/-- What is on disk after builds with the same inputs that were killed. In the directories that
    they leave behind, anything may be found. -/
inductive Attempts : Fs → Prop where
  | none : Attempts fs
  | killed {before after : Fs} {tmp : Temps} {s : State} : Attempts before → Fresh j tmp before →
      Head (turn j tmp) ⟨before, .start⟩ s → (∀ p ∉ scratch j tmp, after p = s.fs p) →
      Attempts after

/-- What holds of a build that finds `fs`. -/
structure Replayable : Prop where
  ends : ∃ s, Exits (turn j tmp) ⟨fs, .start⟩ s
  kept : ∀ s, Head (turn j tmp) ⟨fs, .start⟩ s →
    ∀ p ∉ scratch j tmp, ∀ node, fs p = some node → s.fs p = some node
  names : j.path ∉ scratch j tmp ∧ j.receipt ∉ scratch j tmp
  conflict : Conflict j fs → ∀ s, Exits (turn j tmp) ⟨fs, .start⟩ s → ∃ e, s.point = .raised e
  described : ∀ s p report, Exits (turn j tmp) ⟨fs, .start⟩ s → s.point = .returned p report →
    Described j s.fs p report
  again : Fresh j tmp fs → ∀ s p report, Exits (turn j tmp) ⟨fs, .start⟩ s →
    s.point = .returned p report → ∀ later, Attempts j fs later → ∀ tmp', Fresh j tmp' later →
    ∃ t, Exits (turn j tmp') ⟨later, .start⟩ t ∧ t.point = .returned p report ∧
      ∀ part ∈ publications j, t.fs part.1 = s.fs part.1

end Replay

section Results

variable {j : Job} {tmp : Temps} {fs later : Fs} {s : State} {p : Path} {report : Json}

theorem kept_head (head : Head (turn j tmp) ⟨fs, .start⟩ s) {p : Path} (outside : p ∉ scratch j tmp)
    {node : Node} (there : fs p = some node) : s.fs p = some node := by
  obtain kept | ⟨free, -⟩ := (good_head head).grown p outside
  · exact kept.trans there
  · cases free.symm.trans there

theorem conflict_raises (conflict : Conflict j fs) (exits : Exits (turn j tmp) ⟨fs, .start⟩ s) :
    ∃ e, s.point = .raised e := by
  obtain ⟨p, report, here⟩ | raised := end_cases exits
  · have known := (good_head exits.head).known
    rw [here] at known
    obtain ⟨published, -⟩ := known
    obtain ⟨data, there, other⟩ | ⟨data, there, other⟩ := conflict
    · have kept := (kept_head exits.head path_not_scratch there).symm.trans published.path
      cases kept
      exact absurd rfl other
    · have kept := (kept_head exits.head receipt_not_scratch there).symm.trans published.receipt
      cases kept
      exact absurd rfl other
  · exact raised

theorem described_of_returned (exits : Exits (turn j tmp) ⟨fs, .start⟩ s)
    (here : s.point = .returned p report) : Described j s.fs p report := by
  have known := (good_head exits.head).known
  rw [here] at known
  obtain ⟨published, rfl, rfl, runs⟩ := known
  have identity := verified_identity j (check_verified published.checked)
  refine ⟨published.receipt, rfl, j.bytes, published.path, ?_, rfl, rfl, identity⟩
  cases run : j.artifact with
  | none => exact published.path
  | some o => exact runs o run

theorem accepts_later (accepts : Accepts j fs) (fresh : Fresh j tmp fs)
    (grown : Extends j tmp fs later) : Accepts j later where
  taken := taken_later accepts.taken fresh grown
  checked := accepts.checked
  ready _ h := accepts.target fresh grown h

/-- A build that was killed leaves nothing that is in the way of the next one. -/
theorem accepts_attempts (accepts : Accepts j fs) (attempts : Attempts j fs later) :
    Accepts j later := by
  induction attempts with
  | none => exact accepts
  | killed _ fresh head same ih =>
      refine accepts_later ih fresh fun p outside => ?_
      rw [same p outside]
      exact (good_head head).grown p outside

theorem again_returns (fresh : Fresh j tmp fs) (exits : Exits (turn j tmp) ⟨fs, .start⟩ s)
    (here : s.point = .returned p report) (attempts : Attempts j fs later) {tmp' : Temps}
    (fresh' : Fresh j tmp' later) :
    ∃ t, Exits (turn j tmp') ⟨later, .start⟩ t ∧ t.point = .returned p report ∧
      ∀ part ∈ publications j, t.fs part.1 = s.fs part.1 := by
  have accepts := (returns_iff fresh).mp ⟨s, p, report, exits, here⟩
  obtain ⟨t, q, other, exits', here'⟩ := (returns_iff fresh').mpr (accepts_attempts accepts attempts)
  have good := good_head exits.head
  have good' := good_head exits'.head
  have known := good.known
  have known' := good'.known
  rw [here] at known
  rw [here'] at known'
  obtain ⟨-, rfl, rfl, -⟩ := known
  obtain ⟨-, rfl, rfl, -⟩ := known'
  refine ⟨t, exits', here', fun part h => ?_⟩
  exact (returned_parts good' here' h).trans (returned_parts good here h).symm

/-- A build that was killed can be run again, and what is there is not overwritten. -/
theorem build_replay (j : Job) (tmp : Temps) (fs : Fs) : Replayable j tmp fs where
  ends := build_ends j tmp ⟨fs, .start⟩
  kept _ head _ outside _ there := kept_head head outside there
  names := ⟨path_not_scratch, receipt_not_scratch⟩
  conflict conflict _ exits := conflict_raises conflict exits
  described _ _ _ exits here := described_of_returned exits here
  again fresh _ _ _ exits here _ attempts _ fresh' := again_returns fresh exits here attempts fresh'

end Results

/-! ## A build beside one of another version -/

namespace Sample

def version : Str := "1.0.0".toList

def native : Json := Package.Sample.native Package.Sample.archive

/-- The files of the small package. -/
def contents : List (Str × Bytes × Nat) :=
  Package.Sample.payload.map (fun (name, data) => (name, data, 0o644)) ++
    addedFiles Package.Sample.library Package.Sample.sources Package.Sample.identity.toJson native
      version

/-- A tarball that holds its files, and that the Core reads as the build does. -/
def job : Job where
  lib := Package.Sample.library
  value := Package.Sample.identity.toJson
  tree := Package.Sample.sources
  version := version
  buildNumber := 10
  contents := contents
  pack _ := [0x1f, 0x8b]
  read _ := some ((sortItems (allFiles Package.Sample.library contents)).map tarMember)
  again := Package.Sample.identity.toJson
  core data :=
    .obj
      [("artifact_bytes".toList, .int data.length),
        ("artifact_sha256".toList, .str (Package.Sample.library.digest data)),
        ("build".toList, Package.Sample.identity.toJson), ("schema_version".toList, .int 1)]
  root := ["srv".toList]
  artifact := none
  formal := rfl
  versionOf := rfl
  numberOf := rfl
  inputs := by
    rw [packageFiles, Package.Sample.taken]
    rfl

def temps : Temps where
  package := "a".toList
  driverRun := "b".toList
  plain := by decide

/-- The artifact that the version before has left under the same number. -/
def older : Path := job.output ++ [artifactName "0.9.0".toList 10]

def before : Fs := fun p =>
  if p = job.output then some .dir else if p = older then some (.file []) else none

end Sample

theorem artifactName_version {version other : Str} {n : Nat}
    (h : artifactName version n = artifactName other n) : version = other := by
  have front := List.append_cancel_right (List.append_cancel_right (List.append_cancel_right h))
  exact List.append_cancel_left front

theorem Sample.fresh : Fresh Sample.job Sample.temps Sample.before := by
  intro p inside
  have outside : Sample.older ∉ scratch Sample.job Sample.temps := not_scratch (not_hidden rfl)
  rw [Sample.before, if_neg (ne_of_mem_of_not_mem inside output_not_scratch),
    if_neg (ne_of_mem_of_not_mem inside outside)]

theorem Sample.accepts : Accepts Sample.job Sample.before where
  taken _ run := by cases run
  checked := check_same rfl (verifyTar_packed Sample.job rfl) rfl
  ready part h := by
    have known : publications Sample.job =
        [(Sample.job.output, .dir), (Sample.job.path, .file Sample.job.bytes),
          (Sample.job.receipt, .file Sample.job.receiptBytes)] := rfl
    rw [known] at h
    simp only [List.mem_cons, List.not_mem_nil, or_false] at h
    obtain rfl | rfl | rfl := h
    · exact .inr (if_pos rfl)
    · left
      have other : Sample.job.path ≠ Sample.older := by
        intro same
        have name := (List.cons.inj (List.append_cancel_left same)).1
        have version := artifactName_version name
        revert version
        decide
      rw [Sample.before, if_neg output_ne_path.symm, if_neg other]
    · left
      have other : Sample.job.receipt ≠ Sample.older := by
        intro same
        have name := (List.cons.inj (List.append_cancel_left same)).1
        have z := tarball_last ⟨_, (rfl : _ = artifactName "0.9.0".toList 10)⟩
        rw [← name] at z
        simp at z
      rw [Sample.before, if_neg output_ne_receipt.symm, if_neg other]

/-- The version is in the names: what is there under the same number is not always seen. -/
theorem older_version_unseen : ¬∀ (j : Job) (tmp : Temps) (fs : Fs) (version : Str) (data : Bytes)
    (s : State), fs (j.output ++ [artifactName version j.buildNumber]) = some (.file data) →
      data ≠ j.bytes → Exits (turn j tmp) ⟨fs, .start⟩ s → ∃ e, s.point = .raised e := by
  intro raises
  obtain ⟨s, p, report, exits, here⟩ := (returns_iff Sample.fresh).mpr Sample.accepts
  have there : Sample.before Sample.older = some (.file []) := by
    rw [Sample.before, if_neg, if_pos rfl]
    intro same
    simpa [Sample.older] using congrArg List.length same
  obtain ⟨e, raised⟩ := raises Sample.job Sample.temps Sample.before "0.9.0".toList [] s there
    (by decide) exits
  cases here.symm.trans raised

end Aic8800.Package.Publish
