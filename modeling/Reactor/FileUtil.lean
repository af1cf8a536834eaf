import Reactor.Base

/-!
# ReadSmallFile

`readToString` reads a file up to `maxSize` bytes.  However `read(2)` cuts the file into pieces, the
string ends up with the first `maxSize` bytes of it (`readLoop_spec`).  The code it returns is another
matter: the `else` that stores `errno` belongs to `fstat(2)` but stands at the test of the pointer
`fileSize`.  Without the pointer the function returns whatever `errno` was before; with it a failing
`fstat(2)` is reported only if the memory of `statbuf` happens to look like a directory.
-/

namespace Reactor

/-- The value of `errno` that a failing system call leaves. -/
structure SysErrno where
  val : ℕ
  ne_zero : val ≠ 0

/-- What `read(2)` does: it returns at most `k` bytes, and some if there are any, or fails. -/
inductive ReadResult where
  | upTo (k : ℕ) (pos : 0 < k)
  | fail (errno : SysErrno)

/-- The fields of `struct stat` that are read. -/
structure Stat where
  size : ℤ
  mode : UInt32
  mtime : ℤ
  ctime : ℤ
  deriving DecidableEq, Repr

/-- `S_ISDIR(st_mode)` -/
def Stat.isDir (st : Stat) : Bool := st.mode &&& 0o170000 = 0o040000

def EISDIR : ℕ := 21

/-- What the system calls answer, and what was there before them: `errno`, and the bytes of the
uninitialised `statbuf`. -/
structure FileSystem where
  data : Bytes
  openError : Option SysErrno
  fstat : Except SysErrno Stat
  read : ℕ → ReadResult
  errno : ℕ
  statbuf : Stat

/-- Which of the optional pointers are not null. -/
structure OutPointers where
  fileSize : Bool
  modifyTime : Bool
  createTime : Bool
  deriving DecidableEq, Repr

/-- What `readToString` returns, and what it stores. -/
structure ReadOutcome where
  err : ℕ
  content : Bytes
  fileSize : Option ℤ
  modifyTime : Option ℤ
  createTime : Option ℤ
  deriving DecidableEq, Repr

/-- `ReadSmallFile`, `fd_` being whether the file is open. -/
structure ReadSmallFile where
  fd : Bool
  err : ℕ
  deriving DecidableEq, Repr

namespace ReadSmallFile

def kBufferSize : ℕ := 64 * 1024

/-- The constructor. -/
def new (fs : FileSystem) : ReadSmallFile :=
  match fs.openError with
  | none => ⟨true, 0⟩
  | some errno => ⟨false, errno.val⟩

/-- The bytes that a `read(2)` of at most `toRead` bytes returns at `offset`. -/
def chunk (fs : FileSystem) (offset k toRead : ℕ) : Bytes :=
  (fs.data.drop offset).take (min k toRead)

/-- The loop of `readToString`.  The descriptor is fresh, so its offset is the length of what has been
read; `i` counts the calls of `read(2)`. -/
def readLoop (fs : FileSystem) (maxSize : ℕ) : ℕ → ℕ → Bytes → ℕ → Except Fault (Bytes × ℕ)
  | 0, _, _, _ => .error .outOfFuel
  | fuel + 1, i, content, err =>
    if content.length < maxSize then
      let toRead := min (maxSize - content.length) kBufferSize
      match fs.read i with
      | .upTo k _ =>
        let buf := chunk fs content.length k toRead
        if 0 < buf.length then readLoop fs maxSize fuel (i + 1) (content ++ buf) err
        else return (content, err)
      | .fail errno => return (content, errno.val)
    else return (content, err)

/-- `err` in front of the loop. -/
def statErr (f : ReadSmallFile) (fs : FileSystem) (p : OutPointers) : ℕ :=
  if p.fileSize then
    match fs.fstat with
    | .ok _ => f.err
    | .error _ => if fs.statbuf.isDir then EISDIR else f.err
  else fs.errno

/-- `readToString`, for a `maxSize` that is not negative.  A round of the loop reads a byte or more,
except the last one. -/
def readToString (f : ReadSmallFile) (fs : FileSystem) (maxSize : ℕ) (p : OutPointers)
    (content : Bytes) : Except Fault ReadOutcome :=
  if f.fd then do
    -- if `fstat` fails, the times are read from memory that nothing has written
    let statbuf := fs.fstat.toOption.getD fs.statbuf
    let (content, err) ← readLoop fs maxSize (maxSize + 1) 0 [] (f.statErr fs p)
    return {
      err := err
      content := content
      fileSize := if p.fileSize then fs.fstat.toOption.map Stat.size else none
      modifyTime := if p.fileSize ∧ p.modifyTime then some statbuf.mtime else none
      createTime := if p.fileSize ∧ p.createTime then some statbuf.ctime else none }
  else return ⟨f.err, content, none, none, none⟩

/-- `readFile`: `content` is what the string held before. -/
def readFile (fs : FileSystem) (maxSize : ℕ) (p : OutPointers) (content : Bytes) :
    Except Fault ReadOutcome :=
  (new fs).readToString fs maxSize p content

/-- `readToBuffer`: what it returns, and the contents of `buf_` without the NUL; `pread` is the outcome of
its one `pread(2)`, and the number of bytes goes to `size` if that is not null. -/
def readToBuffer (f : ReadSmallFile) (fs : FileSystem) (pread : ReadResult) (size : Bool) :
    ℕ × Bytes × Option ℕ :=
  if f.fd then
    match pread with
    | .upTo k _ =>
      let buf := chunk fs 0 k (kBufferSize - 1)
      (f.err, buf, if size then some buf.length else none)
    | .fail errno => (errno.val, [], none)
  else (f.err, [], none)

/-! ## Which calls fail -/

/-- The offset in front of the `i`-th call of `read(2)`. -/
def offset (fs : FileSystem) (maxSize : ℕ) : ℕ → ℕ
  | 0 => 0
  | i + 1 =>
    match fs.read i with
    | .upTo k _ => offset fs maxSize i +
      (chunk fs (offset fs maxSize i) k (min (maxSize - offset fs maxSize i) kBufferSize)).length
    | .fail _ => offset fs maxSize i

/-- The `i`-th call of `read(2)` is made: every call before it returned bytes, and more are wanted. -/
def Makes (fs : FileSystem) (maxSize i : ℕ) : Prop :=
  (∀ j < i, offset fs maxSize j < offset fs maxSize (j + 1)) ∧ offset fs maxSize i < maxSize

def OpenFails (fs : FileSystem) : Prop := fs.openError ≠ none

/-- `fstat(2)` is called and fails. -/
def FstatFails (fs : FileSystem) (p : OutPointers) : Prop :=
  p.fileSize = true ∧ fs.fstat.toOption = none

def ReadFails (fs : FileSystem) (maxSize : ℕ) : Prop :=
  ∃ i errno, Makes fs maxSize i ∧ fs.read i = .fail errno

/-- Some system call fails. -/
def Fails (fs : FileSystem) (maxSize : ℕ) (p : OutPointers) : Prop :=
  OpenFails fs ∨ FstatFails fs p ∨ ReadFails fs maxSize

/-- The file is read up to `maxSize` when nothing fails, and the code says whether something did. -/
def Faithful (fs : FileSystem) (maxSize : ℕ) (p : OutPointers) (r : ReadOutcome) : Prop :=
  (¬ Fails fs maxSize p → r.err = 0 ∧ r.content = fs.data.take maxSize) ∧
    (r.err ≠ 0 ↔ Fails fs maxSize p)

/-! ## The loop -/

variable {fs : FileSystem} {maxSize : ℕ}

theorem offset_le_succ (i : ℕ) : offset fs maxSize i ≤ offset fs maxSize (i + 1) := by
  rw [offset]
  split
  · exact Nat.le_add_right _ _
  · exact le_rfl

theorem offset_mono {i j : ℕ} (h : i ≤ j) : offset fs maxSize i ≤ offset fs maxSize j := by
  induction h with
  | refl => exact le_rfl
  | step _ ih => exact ih.trans (offset_le_succ _)

theorem offset_succ_of_fail {i : ℕ} {errno : SysErrno} (h : fs.read i = .fail errno) :
    offset fs maxSize (i + 1) = offset fs maxSize i := by
  rw [offset, h]

/-- A call that fails is not followed by another. -/
theorem not_readFails_of_stop {i : ℕ}
    (hprev : ∀ j < i, offset fs maxSize j < offset fs maxSize (j + 1))
    (hstop : ∀ j ≥ i, Makes fs maxSize j → ∀ errno, fs.read j ≠ .fail errno) :
    ¬ ReadFails fs maxSize := by
  rintro ⟨j, errno, hmade, hfail⟩
  by_cases hj : j < i
  · have hlt := hprev j hj
    rw [offset_succ_of_fail hfail] at hlt
    exact lt_irrefl _ hlt
  · exact hstop j (Nat.le_of_not_lt hj) hmade errno hfail

theorem take_append_chunk (offset k toRead : ℕ) :
    fs.data.take offset ++ chunk fs offset k toRead =
      fs.data.take (offset + (chunk fs offset k toRead).length) := by
  rw [List.take_add, chunk, List.length_take, ← List.take_eq_take_min]

theorem length_take_offset {i : ℕ} :
    (fs.data.take (offset fs maxSize i)).length = offset fs maxSize i := by
  have hle : offset fs maxSize i ≤ fs.data.length := by
    induction i with
    | zero => exact Nat.zero_le _
    | succ i ih =>
      rw [offset]
      split
      · rw [chunk, List.length_take, List.length_drop]
        omega
      · exact ih
  rw [List.length_take, Nat.min_eq_left hle]

/-- From the `i`-th call on: the loop ends, with an error if a call fails and with the rest of the
file otherwise. -/
theorem readLoop_spec {fuel i : ℕ} (hfuel : maxSize - offset fs maxSize i < fuel)
    (hprev : ∀ j < i, offset fs maxSize j < offset fs maxSize (j + 1))
    (hmax : offset fs maxSize i ≤ maxSize) (err : ℕ) :
    ∃ content err', readLoop fs maxSize fuel i (fs.data.take (offset fs maxSize i)) err =
        .ok (content, err') ∧
      (ReadFails fs maxSize → err' ≠ 0) ∧
      (¬ ReadFails fs maxSize → err' = err ∧ content = fs.data.take maxSize) := by
  induction fuel generalizing i with
  | zero => omega
  | succ fuel ih =>
    unfold readLoop
    rw [length_take_offset]
    by_cases hmore : offset fs maxSize i < maxSize
    · rw [if_pos hmore]
      dsimp only
      cases hread : fs.read i with
      | fail errno =>
        exact ⟨_, errno.val, rfl, fun _ => errno.ne_zero,
          fun hno => absurd ⟨i, errno, ⟨hprev, hmore⟩, hread⟩ hno⟩
      | upTo k pos =>
        dsimp only
        have hsucc : offset fs maxSize (i + 1) = offset fs maxSize i +
            (chunk fs (offset fs maxSize i) k
              (min (maxSize - offset fs maxSize i) kBufferSize)).length := by
          rw [offset, hread]
        by_cases hgot : 0 < (chunk fs (offset fs maxSize i) k
            (min (maxSize - offset fs maxSize i) kBufferSize)).length
        · -- the call returned bytes: the next one is made if more are wanted
          rw [if_pos hgot, take_append_chunk, ← hsucc]
          have hlen : (chunk fs (offset fs maxSize i) k
              (min (maxSize - offset fs maxSize i) kBufferSize)).length ≤
              maxSize - offset fs maxSize i := by
            rw [chunk, List.length_take]
            omega
          refine ih (by omega) ?_ (by omega)
          intro j hj
          rcases Nat.lt_succ_iff_lt_or_eq.1 hj with hj | rfl
          · exact hprev j hj
          · omega
        · -- the end of the file
          have hend : fs.data.length ≤ offset fs maxSize i := by
            rw [chunk, List.length_take, List.length_drop] at hgot
            have hbuf : 0 < kBufferSize := by decide
            omega
          rw [if_neg hgot]
          refine ⟨_, err, rfl, fun hfails => ?_, fun _ => ⟨rfl, ?_⟩⟩
          · refine absurd hfails (not_readFails_of_stop hprev ?_)
            intro j hj hmade errno hfail
            rcases Nat.eq_or_lt_of_le hj with rfl | hj
            · rw [hread] at hfail
              cases hfail
            · have := hmade.1 i hj
              omega
          · rw [List.take_of_length_le hend, List.take_of_length_le (by omega)]
    · have hall : offset fs maxSize i = maxSize := by omega
      rw [if_neg hmore, hall]
      refine ⟨_, err, rfl, fun hfails => ?_, fun _ => ⟨rfl, rfl⟩⟩
      refine absurd hfails (not_readFails_of_stop hprev ?_)
      intro j hj hmade
      have hle : offset fs maxSize i ≤ offset fs maxSize j := offset_mono hj
      have hlt := hmade.2
      omega

/-! ## The code that is returned -/

/-- What stands in `err` in front of the loop is whether `fstat(2)` failed: without the pointer
`fileSize`, `errno` was zero; with it, a failing `fstat(2)` left a directory in `statbuf`. -/
def StatReported (fs : FileSystem) (p : OutPointers) : Prop :=
  if p.fileSize = true then fs.fstat.toOption = none → fs.statbuf.isDir = true else fs.errno = 0

theorem statReported_iff {f : ReadSmallFile} (hf : f.err = 0) (p : OutPointers) :
    (f.statErr fs p ≠ 0 ↔ FstatFails fs p) ↔ StatReported fs p := by
  unfold statErr FstatFails StatReported
  cases hp : p.fileSize with
  | false => simp
  | true =>
    cases hstat : fs.fstat with
    | ok st => simp [hf, Except.toOption]
    | error errno =>
      cases hdir : fs.statbuf.isDir with
      | true => simp [Except.toOption, EISDIR]
      | false => simp [Except.toOption, hf]

theorem readFile_of_openFails {errno : SysErrno} (h : fs.openError = some errno) (maxSize : ℕ)
    (p : OutPointers) (content : Bytes) :
    readFile fs maxSize p content = .ok ⟨errno.val, content, none, none, none⟩ := by
  unfold readFile new
  rw [h]
  rfl

/-- What is read when the file is open. -/
theorem readFile_of_open (h : fs.openError = none) (maxSize : ℕ) (p : OutPointers)
    (content : Bytes) :
    ∃ r, readFile fs maxSize p content = .ok r ∧ (ReadFails fs maxSize → r.err ≠ 0) ∧
      (¬ ReadFails fs maxSize → r.err = statErr ⟨true, 0⟩ fs p ∧
        r.content = fs.data.take maxSize) := by
  obtain ⟨content', err, hloop, hfails, hall⟩ := readLoop_spec
    (show maxSize - offset fs maxSize 0 < maxSize + 1 by omega) (by simp) (Nat.zero_le _)
    (statErr ⟨true, 0⟩ fs p)
  have hloop' : readLoop fs maxSize (maxSize + 1) 0 [] (statErr ⟨true, 0⟩ fs p) = .ok (content', err) :=
    hloop
  unfold readFile new readToString
  rw [h]
  dsimp only
  rw [if_pos rfl, hloop', ok_bind]
  exact ⟨_, rfl, hfails, hall⟩

/-- `readFile` returns.  Unless the file cannot be opened or a read fails, the string is the first
`maxSize` bytes of the file; and the call is faithful exactly when the file cannot be opened, or a
read fails, or `err` was right in front of the loop. -/
theorem readFile_faithful_iff (fs : FileSystem) (maxSize : ℕ) (p : OutPointers) (content : Bytes) :
    ∃ r, readFile fs maxSize p content = .ok r ∧
      (¬ OpenFails fs → ¬ ReadFails fs maxSize → r.content = fs.data.take maxSize) ∧
      (Faithful fs maxSize p r ↔ OpenFails fs ∨ ReadFails fs maxSize ∨ StatReported fs p) := by
  cases hopen : fs.openError with
  | some errno =>
    have hfails : OpenFails fs := by
      rw [OpenFails, hopen]
      simp
    refine ⟨_, readFile_of_openFails hopen maxSize p content, fun hno => absurd hfails hno,
      fun _ => Or.inl hfails, fun _ => ⟨fun hno => absurd (Or.inl hfails) hno, fun _ => Or.inl hfails,
        fun _ => errno.ne_zero⟩⟩
  | none =>
    have hok : ¬ OpenFails fs := fun h => h hopen
    obtain ⟨r, hr, hfails, hall⟩ := readFile_of_open hopen maxSize p content
    refine ⟨r, hr, fun _ hno => (hall hno).2, ?_⟩
    by_cases hread : ReadFails fs maxSize
    · have hany : Fails fs maxSize p := Or.inr (Or.inr hread)
      exact ⟨fun _ => Or.inr (Or.inl hread), fun _ => ⟨fun hno => absurd hany hno, fun _ => hany,
        fun _ => hfails hread⟩⟩
    · obtain ⟨herr, hcontent⟩ := hall hread
      have hany : Fails fs maxSize p ↔ FstatFails fs p := by
        simp only [Fails, hok, hread, false_or, or_false]
      have hstat : (r.err ≠ 0 ↔ FstatFails fs p) ↔ StatReported fs p := by
        rw [herr]
        exact statReported_iff rfl p
      rw [Faithful, hany, hstat]
      constructor
      · rintro ⟨-, h⟩
        exact Or.inr (Or.inr h)
      · rintro (h | h | h)
        · exact absurd h hok
        · exact absurd h hread
        · refine ⟨fun hno => ⟨?_, hcontent⟩, h⟩
          by_contra hne
          exact hno ((hstat.2 h).1 hne)

/-- `readToBuffer` looks at `errno` after a failing call only, and its code is right. -/
theorem readToBuffer_err (fs : FileSystem) (pread : ReadResult) (size : Bool) :
    ((new fs).readToBuffer fs pread size).1 ≠ 0 ↔ OpenFails fs ∨ ∃ errno, pread = .fail errno := by
  unfold readToBuffer new OpenFails
  cases hopen : fs.openError with
  | some errno => simp [errno.ne_zero]
  | none =>
    cases pread with
    | upTo k pos => simp
    | fail errno => simp [errno.ne_zero]

/-- A file of five bytes; an earlier call of the process left `ENOENT` in `errno`. -/
def staleErrno : FileSystem where
  data := ascii "hello"
  openError := none
  fstat := .ok ⟨5, 0o100644, 0, 0⟩
  read := fun _ => .upTo 3 (by decide)
  errno := 2
  statbuf := ⟨0, 0, 0, 0⟩

/-- Every call succeeds and all of the file is read, but without the pointer `fileSize` the error of
some earlier call is returned. -/
theorem readFile_not_faithful :
    ¬ ∀ (fs : FileSystem) (maxSize : ℕ) (p : OutPointers) (content : Bytes) (r : ReadOutcome),
      readFile fs maxSize p content = .ok r → Faithful fs maxSize p r := by
  intro h
  have hcall : readFile staleErrno 64 ⟨false, false, false⟩ [] =
      .ok ⟨2, ascii "hello", none, none, none⟩ := by decide +kernel
  have hfaith := h staleErrno 64 ⟨false, false, false⟩ [] _ hcall
  rcases hfaith.2.1 (by decide) with hopen | hstat | ⟨i, errno, -, hread⟩
  · exact hopen rfl
  · cases hstat.1
  · cases hread

end ReadSmallFile

end Reactor
