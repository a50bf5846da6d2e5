import Wldroid.Foundation.Loops
import Wldroid.Foundation.ShortReads

/-!
# Resumed downloads

A download writes to a `.partial` file, which it renames at the end.  If there is one already, only
the bytes that are missing are asked for.  A call can be interrupted at any place, and the next one
starts from the file it left behind.

* `FollowsRules`, `Server` — what a server may answer to a request with or without a range;
* `downloadRound` — one round of a call, between two of which it can be interrupted;
* `AttemptInv` — what is in the files at every stage;
* **`succeeds_iff`** — after any interrupted calls, a further one gets the remote content exactly if
  the `.partial` file is not complete already, or the server answers with all of the content;
* `complete_fails` — a complete `.partial` file makes all further calls fail.
-/

namespace Wldroid.Proot

open Wldroid.Foundation

/-! ### The server -/

structure Response where
  code : ℕ
  body : List UInt8
  contentLength : ℤ
  deriving DecidableEq

/-- `isSuccessful`. -/
def Response.isSuccessful (r : Response) : Prop := 200 ≤ r.code ∧ r.code < 300

instance (r : Response) : Decidable r.isSuccessful := inferInstanceAs (Decidable (_ ∧ _))

/-- The answers that are allowed to a request for `bytes=first-`, or for everything: the server may
ignore the range. -/
inductive FollowsRules (remote : List UInt8) : Option ℕ → Response → Prop where
  | ok (range : Option ℕ) (length : ℤ) : FollowsRules remote range ⟨200, remote, length⟩
  | partialContent {first : ℕ} (h : first < remote.length) (length : ℤ) :
      FollowsRules remote (some first) ⟨206, remote.drop first, length⟩
  | rangeNotSatisfiable {first : ℕ} (h : remote.length ≤ first) (body : List UInt8) (length : ℤ) :
      FollowsRules remote (some first) ⟨416, body, length⟩

structure Server (remote : List UInt8) where
  respond : Option ℕ → Response
  follows : ∀ range, FollowsRules remote range (respond range)

/-- What a call meets: the server, how many bytes each read delivers, and whether the file can be
renamed. -/
structure Attempt (remote : List UInt8) where
  server : Server remote
  sizes : ℕ → ℕ
  renames : Bool

/-! ### The call -/

structure DownloadFiles where
  partialFile : Option (List UInt8)
  destFile : Option (List UInt8)
  deriving DecidableEq

def DownloadFiles.existingBytes (f : DownloadFiles) : ℕ := (f.partialFile.getD []).length

/-- The `Range` header, if there is one. -/
def DownloadFiles.range (f : DownloadFiles) : Option ℕ :=
  if f.existingBytes > 0 then some f.existingBytes else none

/-- The variables of the loop that reads the body. -/
structure Reading where
  input : Inbox UInt8
  bytesRead : ℕ
  totalBytes : ℤ
  lastProgressBytes : ℕ

inductive DownloadStage where
  | start
  | answered (existingBytes : ℕ) (response : Response)
  | opening (resuming : Bool) (reading : Reading)
  | reading (reading : Reading)
  | finishing
  | copying (input : Inbox UInt8)
  | deleting
  | returned
  | failed (message : String)

/-- A call on its way, with the progress it has reported. -/
structure Download where
  stage : DownloadStage
  files : DownloadFiles
  progress : List (ℕ × ℤ)

def bufferSize : ℕ := 8192
def progressThreshold : ℕ := 100 * 1024

/-- A call before its first round. -/
def Download.call (files : DownloadFiles) : Download := ⟨.start, files, []⟩

variable {remote : List UInt8}

/-- `download`, round by round. -/
def downloadRound (a : Attempt remote) (d : Download) : Option Download :=
  match d.stage with
  | .start =>
    some { d with stage := .answered d.files.existingBytes (a.server.respond d.files.range) }
  | .answered existingBytes response =>
    if ¬ response.isSuccessful ∧ response.code ≠ 206 then
      some { d with stage := .failed ("Download failed: HTTP " ++ toString response.code) }
    else
      -- a 200 instead of a 206 restarts from scratch
      let resuming := response.code = 206 ∧ existingBytes > 0
      let bytesRead := if resuming then existingBytes else 0
      some
        { d with
          stage := .opening resuming
            { input := ⟨response.body, 0⟩
              bytesRead := bytesRead
              totalBytes :=
                if resuming then existingBytes + response.contentLength else response.contentLength
              lastProgressBytes := bytesRead }
          files := if resuming then d.files else { d.files with partialFile := none } }
  | .opening resuming reading =>
    some
      { d with
        stage := .reading reading
        files := { d.files with
          partialFile := if resuming then some (d.files.partialFile.getD []) else some [] } }
  | .reading r =>
    let one := r.input.read a.sizes bufferSize
    if one.1 = [] then
      some { d with stage := .finishing, progress := d.progress ++ [(r.bytesRead, r.totalBytes)] }
    else
      let bytesRead := r.bytesRead + one.1.length
      let report := bytesRead - r.lastProgressBytes ≥ progressThreshold
      some
        { stage := .reading
            { r with
              input := one.2
              bytesRead := bytesRead
              lastProgressBytes := if report then bytesRead else r.lastProgressBytes }
          files := { d.files with partialFile := some (d.files.partialFile.getD [] ++ one.1) }
          progress := if report then d.progress ++ [(bytesRead, r.totalBytes)] else d.progress }
  | .finishing =>
    if a.renames then some { d with stage := .returned, files := ⟨none, d.files.partialFile⟩ }
    else
      some
        { d with
          stage := .copying ⟨d.files.partialFile.getD [], 0⟩
          files := { d.files with destFile := some [] } }
  | .copying input =>
    let one := input.read a.sizes bufferSize
    if one.1 = [] then some { d with stage := .deleting }
    else
      some
        { d with
          stage := .copying one.2
          files := { d.files with destFile := some (d.files.destFile.getD [] ++ one.1) } }
  | .deleting => some { d with stage := .returned, files := { d.files with partialFile := none } }
  | .returned | .failed _ => none

/-- A call from some files returns, with the remote content in the destination. -/
def Succeeds (a : Attempt remote) (files : DownloadFiles) : Prop :=
  ∃ d, LoopEnds (downloadRound a) (.call files) d ∧ d.stage = .returned ∧
    d.files.destFile = some remote

/-- What calls leave behind that are interrupted after so many rounds. -/
def leftBehind (files : DownloadFiles) (attempts : List (Attempt remote × ℕ)) : DownloadFiles :=
  attempts.foldl (fun files a => (loopRun (downloadRound a.1) a.2 (.call files)).files) files

/-- The `.partial` file, if there is one, is a prefix of the remote content. -/
def DownloadFiles.IsPartial (f : DownloadFiles) (remote : List UInt8) : Prop :=
  ∀ p, f.partialFile = some p → p <+: remote

/-- The condition: the `.partial` file is missing, empty or not complete, or the server answers with
all of the content. -/
def Resumable (a : Attempt remote) (files : DownloadFiles) : Prop :=
  files.existingBytes = 0 ∨ files.existingBytes < remote.length ∨
    (a.server.respond files.range).code = 200

/-! ### What is in the files -/

section Calls

variable {a : Attempt remote} {files : DownloadFiles} {d t : Download}

/-- What holds at every stage of a call from the given files.  What has been written and what is
still to be read are the remote content, and the call only gets so far if the files can be
resumed. -/
def AttemptInv (a : Attempt remote) (files : DownloadFiles) (d : Download) : Prop :=
  match d.stage with
  | .start => d.files = files
  | .answered existingBytes response =>
    d.files = files ∧ existingBytes = files.existingBytes ∧
      response = a.server.respond files.range
  | .opening resuming r =>
    Resumable a files ∧ d.files.IsPartial remote ∧
      (if resuming then d.files.partialFile.getD [] else []) ++ r.input.unread = remote
  | .reading r =>
    Resumable a files ∧ ∃ p, d.files.partialFile = some p ∧ p ++ r.input.unread = remote
  | .finishing => Resumable a files ∧ d.files.partialFile = some remote
  | .copying input =>
    Resumable a files ∧ d.files.partialFile = some remote ∧
      ∃ c, d.files.destFile = some c ∧ c ++ input.unread = remote
  | .deleting =>
    Resumable a files ∧ d.files.partialFile = some remote ∧ d.files.destFile = some remote
  | .returned =>
    Resumable a files ∧ d.files.partialFile = none ∧ d.files.destFile = some remote
  | .failed _ => ¬ Resumable a files ∧ d.files = files

theorem prefix_of_isPartial (h : files.IsPartial remote) :
    files.partialFile.getD [] <+: remote := by
  cases hpartial : files.partialFile with
  | none => exact List.nil_prefix
  | some p => exact h p hpartial

/-- An answer to the call: all of the content, what is missing of it, or none. -/
theorem respond_cases (a : Attempt remote) (files : DownloadFiles) :
    (∃ length : ℤ, a.server.respond files.range = ⟨200, remote, length⟩) ∨
      (0 < files.existingBytes ∧ files.existingBytes < remote.length ∧
        ∃ length : ℤ, a.server.respond files.range
          = ⟨206, remote.drop files.existingBytes, length⟩) ∨
      (0 < files.existingBytes ∧ remote.length ≤ files.existingBytes ∧
        (a.server.respond files.range).code = 416) := by
  have hrange : ∀ first, files.range = some first →
      0 < files.existingBytes ∧ first = files.existingBytes := by
    intro first h
    unfold DownloadFiles.range at h
    split at h
    · rename_i hpos
      exact ⟨hpos, (Option.some.inj h).symm⟩
    · cases h
  generalize hr : a.server.respond files.range = response
  have hfollows := a.server.follows files.range
  rw [hr] at hfollows
  generalize hg : files.range = range at *
  cases hfollows with
  | ok => exact .inl ⟨_, rfl⟩
  | partialContent h length =>
    obtain ⟨hpos, rfl⟩ := hrange _ rfl
    exact .inr (.inl ⟨hpos, h, length, rfl⟩)
  | rangeNotSatisfiable h body length =>
    obtain ⟨hpos, rfl⟩ := hrange _ rfl
    exact .inr (.inr ⟨hpos, h, rfl⟩)

theorem round_ok (a : Attempt remote) (e : ℕ) (length : ℤ) (progress : List (ℕ × ℤ)) :
    downloadRound a ⟨.answered e ⟨200, remote, length⟩, files, progress⟩
      = some ⟨.opening false ⟨⟨remote, 0⟩, 0, length, 0⟩, { files with partialFile := none },
          progress⟩ := rfl

theorem round_partialContent (a : Attempt remote) {e : ℕ} (he : 0 < e) (body : List UInt8)
    (length : ℤ) (progress : List (ℕ × ℤ)) :
    downloadRound a ⟨.answered e ⟨206, body, length⟩, files, progress⟩
      = some ⟨.opening true ⟨⟨body, 0⟩, e, e + length, e⟩, files, progress⟩ := by
  simp [downloadRound, Response.isSuccessful, he]

theorem round_unsatisfiable (a : Attempt remote) (e : ℕ) {response : Response}
    (h : response.code = 416) (progress : List (ℕ × ℤ)) :
    downloadRound a ⟨.answered e response, files, progress⟩
      = some ⟨.failed ("Download failed: HTTP " ++ toString response.code), files, progress⟩ := by
  simp [downloadRound, Response.isSuccessful, h]

/-- A complete `.partial` file is what a 416 tells of. -/
theorem not_resumable (hpos : 0 < files.existingBytes) (hle : remote.length ≤ files.existingBytes)
    (hcode : (a.server.respond files.range).code = 416) : ¬ Resumable a files := by
  rintro (hzero | hlt | hok)
  · omega
  · omega
  · omega

/-- **One round.** -/
theorem AttemptInv.round (hfiles : files.IsPartial remote) (h : AttemptInv a files d)
    (hround : downloadRound a d = some t) : AttemptInv a files t := by
  obtain ⟨stage, f, progress⟩ := d
  cases stage with
  | start =>
    cases hround
    exact ⟨h, congrArg DownloadFiles.existingBytes h,
      congrArg (fun f => a.server.respond f.range) h⟩
  | answered existingBytes response =>
    obtain ⟨hf, hexisting, hresponse⟩ := h
    change f = files at hf
    subst hf
    rcases respond_cases a f with ⟨length, hr⟩ | ⟨hpos, hlt, length, hr⟩ | ⟨hpos, hle, hcode⟩
    · rw [hresponse, hr, round_ok] at hround
      cases hround
      exact ⟨.inr (.inr (by rw [hr])), nofun, rfl⟩
    · rw [hresponse, hr, hexisting, round_partialContent a hpos] at hround
      cases hround
      refine ⟨.inr (.inl hlt), hfiles, ?_⟩
      obtain ⟨rest, hrest⟩ := prefix_of_isPartial hfiles
      show f.partialFile.getD [] ++ remote.drop f.existingBytes = remote
      unfold DownloadFiles.existingBytes
      rw [← hrest, List.drop_left]
    · rw [hresponse, round_unsatisfiable a _ hcode] at hround
      cases hround
      exact ⟨not_resumable hpos hle hcode, rfl⟩
  | opening resuming r =>
    obtain ⟨hresumable, hpartial, hall⟩ := h
    cases hround
    cases resuming with
    | true => exact ⟨hresumable, _, rfl, hall⟩
    | false => exact ⟨hresumable, [], rfl, hall⟩
  | reading r =>
    obtain ⟨hresumable, p, hp, hall⟩ := h
    change f.partialFile = some p at hp
    unfold downloadRound at hround
    simp only at hround
    rcases r.input.read_spec a.sizes (show 0 < bufferSize by decide) with
      ⟨hnil, hend⟩ | ⟨hsome, hsplit⟩
    · rw [if_pos hnil] at hround
      cases hround
      rw [hend, List.append_nil] at hall
      exact ⟨hresumable, hall ▸ hp⟩
    · rw [if_neg hsome] at hround
      cases hround
      refine ⟨hresumable, _, rfl, ?_⟩
      show f.partialFile.getD [] ++ _ ++ _ = remote
      rw [hp, Option.getD_some, List.append_assoc, hsplit, hall]
  | finishing =>
    obtain ⟨hresumable, hp⟩ := h
    change f.partialFile = some remote at hp
    unfold downloadRound at hround
    simp only at hround
    split at hround
    · cases hround
      exact ⟨hresumable, rfl, hp⟩
    · cases hround
      refine ⟨hresumable, hp, [], rfl, ?_⟩
      show f.partialFile.getD [] = remote
      rw [hp, Option.getD_some]
  | copying input =>
    obtain ⟨hresumable, hp, c, hc, hall⟩ := h
    change f.destFile = some c at hc
    unfold downloadRound at hround
    simp only at hround
    rcases input.read_spec a.sizes (show 0 < bufferSize by decide) with
      ⟨hnil, hend⟩ | ⟨hsome, hsplit⟩
    · rw [if_pos hnil] at hround
      cases hround
      rw [hend, List.append_nil] at hall
      exact ⟨hresumable, hp, hall ▸ hc⟩
    · rw [if_neg hsome] at hround
      cases hround
      refine ⟨hresumable, hp, _, rfl, ?_⟩
      show f.destFile.getD [] ++ _ ++ _ = remote
      rw [hc, Option.getD_some, List.append_assoc, hsplit, hall]
  | deleting =>
    obtain ⟨hresumable, hp, hd⟩ := h
    cases hround
    exact ⟨hresumable, rfl, hd⟩
  | returned => cases hround
  | failed message => cases hround

/-- At every stage the `.partial` file is a prefix of the remote content. -/
theorem AttemptInv.isPartial (hfiles : files.IsPartial remote) (h : AttemptInv a files d) :
    d.files.IsPartial remote := by
  obtain ⟨stage, f, progress⟩ := d
  intro p hp
  change f.partialFile = some p at hp
  cases stage with
  | start =>
    change f = files at h
    exact hfiles p (h ▸ hp)
  | answered existingBytes response =>
    obtain ⟨hf, -, -⟩ := h
    change f = files at hf
    exact hfiles p (hf ▸ hp)
  | opening resuming r =>
    obtain ⟨-, hpartial, -⟩ := h
    exact hpartial p hp
  | reading r =>
    obtain ⟨-, p', hp', hall⟩ := h
    obtain rfl := Option.some.inj (hp.symm.trans hp')
    exact ⟨_, hall⟩
  | finishing =>
    obtain ⟨-, hp'⟩ := h
    obtain rfl := Option.some.inj (hp.symm.trans hp')
    exact List.prefix_refl p
  | copying input =>
    obtain ⟨-, hp', -⟩ := h
    obtain rfl := Option.some.inj (hp.symm.trans hp')
    exact List.prefix_refl p
  | deleting =>
    obtain ⟨-, hp', -⟩ := h
    obtain rfl := Option.some.inj (hp.symm.trans hp')
    exact List.prefix_refl p
  | returned =>
    obtain ⟨-, hnone, -⟩ := h
    cases hp.symm.trans hnone
  | failed message =>
    obtain ⟨-, hf⟩ := h
    change f = files at hf
    exact hfiles p (hf ▸ hp)

/-- **Interruptions.**  Whatever calls are interrupted, a prefix is left behind. -/
theorem isPartial_leftBehind (attempts : List (Attempt remote × ℕ)) :
    ∀ {files : DownloadFiles}, files.IsPartial remote →
      (leftBehind files attempts).IsPartial remote := by
  induction attempts with
  | nil => exact fun h => h
  | cons attempt attempts ih =>
    intro files hfiles
    refine ih ?_
    have hcall : AttemptInv attempt.1 files (.call files) := rfl
    exact AttemptInv.isPartial hfiles
      (loopRun_invariant (fun _ _ hs hround => hs.round hfiles hround) attempt.2 _ hcall)

/-! ### A call that is not interrupted -/

/-- What is left to do, in rounds. -/
def roundsLeft (a : Attempt remote) (d : Download) : ℕ :=
  let written := d.files.existingBytes
  match d.stage with
  | .start => written + 2 * (a.server.respond d.files.range).body.length + 7
  | .answered _ response => written + 2 * response.body.length + 6
  | .opening _ r => written + 2 * r.input.unread.length + 5
  | .reading r => written + 2 * r.input.unread.length + 4
  | .finishing => written + 3
  | .copying input => input.unread.length + 2
  | .deleting => 1
  | .returned | .failed _ => 0

theorem roundsLeft_decreases (d t : Download) (hround : downloadRound a d = some t) :
    roundsLeft a t < roundsLeft a d := by
  obtain ⟨stage, f, progress⟩ := d
  have hlengths : ∀ {l l' l'' : List UInt8}, l ≠ [] → l ++ l' = l'' →
      0 < l.length ∧ l.length + l'.length = l''.length := by
    intro l l' l'' hne hsplit
    exact ⟨List.length_pos_of_ne_nil hne, by rw [← hsplit, List.length_append]⟩
  cases stage with
  | start =>
    cases hround
    exact Nat.lt_succ_self _
  | answered existingBytes response =>
    unfold downloadRound at hround
    simp only at hround
    split at hround
    · cases hround
      exact Nat.succ_pos _
    · cases hround
      simp only [roundsLeft, DownloadFiles.existingBytes]
      split
      · omega
      · simp only [Option.getD_none, List.length_nil]
        omega
  | opening resuming r =>
    cases hround
    cases resuming with
    | true => exact Nat.lt_succ_self _
    | false =>
      simp only [roundsLeft, DownloadFiles.existingBytes, Bool.false_eq_true, if_false,
        Option.getD_some, List.length_nil]
      omega
  | reading r =>
    unfold downloadRound at hround
    simp only at hround
    rcases r.input.read_spec a.sizes (show 0 < bufferSize by decide) with
      ⟨hnil, hend⟩ | ⟨hsome, hsplit⟩
    · rw [if_pos hnil] at hround
      cases hround
      simp only [roundsLeft]
      omega
    · rw [if_neg hsome] at hround
      cases hround
      have hread := hlengths hsome hsplit
      simp only [roundsLeft, DownloadFiles.existingBytes, Option.getD_some, List.length_append]
      omega
  | finishing =>
    unfold downloadRound at hround
    simp only at hround
    split at hround
    · cases hround
      exact Nat.succ_pos _
    · cases hround
      exact Nat.lt_succ_self _
  | copying input =>
    unfold downloadRound at hround
    simp only at hround
    rcases input.read_spec a.sizes (show 0 < bufferSize by decide) with
      ⟨hnil, hend⟩ | ⟨hsome, hsplit⟩
    · rw [if_pos hnil] at hround
      cases hround
      simp only [roundsLeft]
      omega
    · rw [if_neg hsome] at hround
      cases hround
      have hread := hlengths hsome hsplit
      simp only [roundsLeft]
      omega
  | deleting =>
    cases hround
    exact Nat.one_pos
  | returned => cases hround
  | failed message => cases hround

/-- Where a call ends, it has returned or failed. -/
theorem stage_of_end (h : downloadRound a d = none) :
    d.stage = .returned ∨ ∃ message, d.stage = .failed message := by
  obtain ⟨stage, f, progress⟩ := d
  cases stage with
  | returned => exact .inl rfl
  | failed message => exact .inr ⟨message, rfl⟩
  | start => cases h
  | opening resuming r => cases h
  | deleting => cases h
  | answered existingBytes response =>
    unfold downloadRound at h
    simp only at h
    split at h <;> cases h
  | reading r =>
    unfold downloadRound at h
    simp only at h
    split at h <;> cases h
  | finishing =>
    unfold downloadRound at h
    simp only at h
    split at h <;> cases h
  | copying input =>
    unfold downloadRound at h
    simp only at h
    split at h <;> cases h

/-- **One call** that is not interrupted ends, and it has the remote content exactly if the files
could be resumed. -/
theorem succeeds_iff_resumable (hfiles : files.IsPartial remote) (a : Attempt remote) :
    Succeeds a files ↔ Resumable a files := by
  have hcall : AttemptInv a files (.call files) := rfl
  have hkeep : ∀ d t, AttemptInv a files d → downloadRound a d = some t → AttemptInv a files t :=
    fun _ _ h hround => h.round hfiles hround
  constructor
  · rintro ⟨⟨stage, f, progress⟩, hends, hstage, -⟩
    change stage = .returned at hstage
    subst hstage
    exact (hends.invariant hkeep hcall).1
  · intro hresumable
    have hends := loopEnds_loopRun (roundsLeft a) roundsLeft_decreases _ (.call files) (le_refl _)
    have hinv := hends.invariant hkeep hcall
    generalize loopRun (downloadRound a) (roundsLeft a (.call files)) (.call files) = d at hends hinv
    obtain ⟨stage, f, progress⟩ := d
    rcases stage_of_end hends.left with hstage | ⟨message, hstage⟩
    · change stage = .returned at hstage
      subst hstage
      exact ⟨_, hends, rfl, hinv.2.2⟩
    · change stage = .failed message at hstage
      subst hstage
      exact absurd hresumable hinv.1

/-- **Resuming.**  After any interrupted calls, a further one that is not interrupted succeeds
exactly under the condition. -/
theorem succeeds_iff (hfiles : files.IsPartial remote) (attempts : List (Attempt remote × ℕ))
    (a : Attempt remote) :
    Succeeds a (leftBehind files attempts) ↔ Resumable a (leftBehind files attempts) :=
  succeeds_iff_resumable (isPartial_leftBehind attempts hfiles) a

end Calls

/-! ### A complete file -/

/-- The answers of a server that honours ranges. -/
def rangeResponse (remote : List UInt8) : Option ℕ → Response
  | none => ⟨200, remote, remote.length⟩
  | some first =>
    if first < remote.length then ⟨206, remote.drop first, (remote.drop first).length⟩
    else ⟨416, [], 0⟩

theorem rangeResponse_follows (remote : List UInt8) (range : Option ℕ) :
    FollowsRules remote range (rangeResponse remote range) := by
  cases range with
  | none => exact .ok none _
  | some first =>
    show FollowsRules remote (some first) (if _ then _ else _)
    split
    · rename_i h
      exact .partialContent h _
    · rename_i h
      exact .rangeNotSatisfiable (Nat.le_of_not_lt h) _ _

def rangeServer (remote : List UInt8) : Server remote :=
  ⟨rangeResponse remote, rangeResponse_follows remote⟩

/-- Reads of one byte, and a file system that renames. -/
def byteByByte (remote : List UInt8) : Attempt remote := ⟨rangeServer remote, fun _ => 1, true⟩

def noFiles : DownloadFiles := ⟨none, none⟩

theorem isPartial_noFiles (remote : List UInt8) : noFiles.IsPartial remote := nofun

theorem succeeds_resumed :
    Succeeds (byteByByte [1, 2, 3]) (leftBehind noFiles [(byteByByte [1, 2, 3], 5)]) :=
  (succeeds_iff (isPartial_noFiles _) _ _).mpr (.inr (.inl (by decide)))

/-- A call that is interrupted before it renames the complete file: the next one fails. -/
theorem complete_fails :
    ¬ ∀ (remote : List UInt8) (files : DownloadFiles) (attempts : List (Attempt remote × ℕ))
      (a : Attempt remote), files.IsPartial remote → Succeeds a (leftBehind files attempts) := by
  intro h
  have hsucceeds := h [1, 2, 3] noFiles [(byteByByte [1, 2, 3], 6)] (byteByByte [1, 2, 3])
    (isPartial_noFiles _)
  have hcomplete : leftBehind noFiles [(byteByByte [1, 2, 3], 6)] = ⟨some [1, 2, 3], none⟩ := by decide
  rw [hcomplete, succeeds_iff_resumable (by rintro p ⟨⟩; exact List.prefix_refl _)] at hsucceeds
  rcases hsucceeds with hzero | hlt | hok
  · revert hzero
    decide
  · revert hlt
    decide
  · revert hok
    decide

end Wldroid.Proot
