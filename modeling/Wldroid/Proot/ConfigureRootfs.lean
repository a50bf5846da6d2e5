import Wldroid.Proot.GroupRegex

/-!
# Configuring a root file system

After the extraction of a root file system the configuration files of the guest are written:
the search path, the name servers, and a user with an account and the right to use sudo.

* `TextPiece`, `readText`, `encode` — the content of a file, and the text that is read from it;
* `configureRootfs` — the function, one file after the other;
* `configureRootfs_files` — what is in each file afterwards;
* **`configureRootfs_twice`** — a second run changes nothing.
-/

namespace Wldroid.Proot

open Wldroid.Foundation

/-! ### Files -/

/-- What a decoder of UTF-8 makes of the bytes in a file: characters, and malformed sequences
between them. -/
inductive TextPiece where
  | char (c : Char)
  | malformed (bytes : List UInt8)
  deriving DecidableEq

/-- The content of a file; whatever bytes it has, they are cut into such pieces. -/
abbrev Content := List TextPiece

/-- A malformed sequence is read as the replacement character. -/
def TextPiece.read : TextPiece → Char
  | .char c => c
  | .malformed _ => '\uFFFD'

def readText (content : Content) : List Char := content.map TextPiece.read

def encode (text : List Char) : Content := text.map .char

@[simp] theorem readText_encode (text : List Char) : readText (encode text) = text := by
  unfold readText encode
  rw [List.map_map]
  exact List.map_id text

@[simp] theorem readText_append (c c' : Content) : readText (c ++ c') = readText c ++ readText c' :=
  List.map_append

/-- The files of a root file system and its directories, by their paths. -/
@[ext] structure Rootfs where
  files : List String → Option Content
  dirs : List String → Bool

def Rootfs.isFile (r : Rootfs) (path : List String) : Bool := (r.files path).isSome

/-- The directories on a path are created. -/
def Rootfs.mkdirs (r : Rootfs) (path : List String) : Rootfs :=
  { r with dirs := fun dir => r.dirs dir || decide (dir <+: path) }

def Rootfs.writeText (r : Rootfs) (path : List String) (text : List Char) : Rootfs :=
  { r with files := Function.update r.files path (some (encode text)) }

/-- A file that is not there is created. -/
def Rootfs.appendText (r : Rootfs) (path : List String) (text : List Char) : Rootfs :=
  { r with files := Function.update r.files path (some ((r.files path).getD [] ++ encode text)) }

def Rootfs.delete (r : Rootfs) (path : List String) : Rootfs :=
  { r with files := Function.update r.files path none }

/-- The text of a file, and no text if it is not there. -/
def Rootfs.text (r : Rootfs) (path : List String) : List Char := readText ((r.files path).getD [])

/-! ### The configuration -/

def environmentPath : List String := ["etc", "environment"]
def profilePath : List String := ["etc", "profile.d", "wldroid-path.sh"]
def resolvConf : List String := ["etc", "resolv.conf"]
def passwdFile : List String := ["etc", "passwd"]
def groupFile : List String := ["etc", "group"]
def shadowFile : List String := ["etc", "shadow"]
def sudoersPath : List String := ["etc", "sudoers.d", "user"]
def devShm : List String := ["dev", "shm"]

def environmentText : List Char :=
  "PATH=\"/usr/local/sbin:/usr/local/bin:/usr/sbin:/usr/bin:/sbin:/bin\"\n".toList

def profileText : List Char :=
  ("# Set by WLDroid during rootfs setup\n" ++
    "export PATH=\"/usr/local/sbin:/usr/local/bin:/usr/sbin:/usr/bin:/sbin:/bin\"\n").toList

def resolvText : List Char := "nameserver 8.8.8.8\nnameserver 8.8.4.4\n".toList
def sudoersText : List Char := "user ALL=(ALL) NOPASSWD:ALL\n".toList

/-- `"user:"`. -/
def userKey : List Char := "user:".toList

/-- `"user:x:1000:"`. -/
def groupKey : List Char := "user:x:1000:".toList

def passwdEntry : List Char := "user:x:1000:1000:Default User:/home/user:/bin/bash\n".toList
def groupEntry : List Char := "user:x:1000:user\n".toList
def shadowEntry : List Char := "user:!:19000:0:99999:7:::\n".toList
def sudoEntry : List Char := "sudo:x:27:user\n".toList

/-- An entry is appended unless the text has the key somewhere. -/
def Rootfs.addEntry (r : Rootfs) (path : List String) (key entry : List Char) : Rootfs :=
  if ¬ r.isFile path ∨ ¬ key <:+: r.text path then r.appendText path entry else r

/-- The same where the text of a file that is not there is empty. -/
def Rootfs.addGroup (r : Rootfs) : Rootfs :=
  let groupText := if r.isFile groupFile then r.text groupFile else []
  if ¬ groupKey <:+: groupText then r.appendText groupFile groupEntry else r

/-- The user is added to the group sudo, which is created if it is not found. -/
def Rootfs.addSudo (k : RegexClasses) (r : Rootfs) : Rootfs :=
  if r.isFile groupFile then
    let currentGroupText := r.text groupFile
    if findMember k currentGroupText then r
    else if findSudo k currentGroupText ≠ none then
      r.writeText groupFile (replaceSudo k currentGroupText)
    else r.appendText groupFile sudoEntry
  else r

/-- The files that do not depend on what was there before: the first part of `configureRootfs`. -/
def Rootfs.writeDefaults (r : Rootfs) : Rootfs :=
  let r := r.mkdirs ["etc"]
  let r := r.writeText environmentPath environmentText
  let r := r.mkdirs ["etc", "profile.d"]
  let r := r.writeText profilePath profileText
  let r := if r.isFile devShm || r.dirs devShm then r else r.mkdirs devShm
  let r := r.mkdirs ["tmp"]
  (r.delete resolvConf).writeText resolvConf resolvText

/-- `configureRootfs`. -/
def configureRootfs (k : RegexClasses) (r : Rootfs) : Rootfs :=
  let r := r.writeDefaults.mkdirs ["home", "user"]
  let r := r.addEntry passwdFile userKey passwdEntry
  let r := r.addGroup
  let r := r.addSudo k
  let r := r.addEntry shadowFile userKey shadowEntry
  let r := r.mkdirs ["etc", "sudoers.d"]
  r.writeText sudoersPath sudoersText

/-! ### The contents afterwards -/

/-- A file that had an entry appended, or not. -/
def withEntry (key entry : List Char) (content : Content) : Content :=
  if key <:+: readText content then content else content ++ encode entry

/-- `etc/group` with the user in the group sudo. -/
def withSudo (k : RegexClasses) (content : Content) : Content :=
  if findMember k (readText content) then content
  else if findSudo k (readText content) ≠ none then encode (replaceSudo k (readText content))
  else content ++ encode sudoEntry

section Contents

variable {k : RegexClasses} {r : Rootfs} {path : List String} {key entry : List Char}

theorem isFile_of_files {content : Content} (h : r.files path = some content) : r.isFile path := by
  unfold Rootfs.isFile
  rw [h]
  rfl

theorem text_of_files {content : Content} (h : r.files path = some content) :
    r.text path = readText content := by
  unfold Rootfs.text
  rw [h]
  rfl

/-- A file that is not there is treated like one without content. -/
theorem addEntry_files (hkey : key ≠ []) (r : Rootfs) (path : List String) (entry : List Char) :
    (r.addEntry path key entry).files
    = Function.update r.files path (some (withEntry key entry ((r.files path).getD []))) := by
  unfold Rootfs.addEntry
  cases hfile : r.files path with
  | none =>
    have hnot : ¬ r.isFile path := by
      unfold Rootfs.isFile
      rw [hfile]
      exact Bool.false_ne_true
    have hempty : ¬ key <:+: readText [] := fun hin => hkey (List.infix_nil.mp hin)
    rw [if_pos (.inl hnot)]
    unfold Rootfs.appendText withEntry
    rw [hfile, Option.getD_none, if_neg hempty]
  | some content =>
    rw [text_of_files hfile, Option.getD_some]
    unfold withEntry
    by_cases hin : key <:+: readText content
    · have hboth : ¬ (¬ r.isFile path ∨ ¬ key <:+: readText content) := by
        rw [not_or, not_not, not_not]
        exact ⟨isFile_of_files hfile, hin⟩
      rw [if_neg hboth, if_pos hin, ← hfile, Function.update_eq_self]
    · rw [if_pos (.inr hin), if_neg hin]
      unfold Rootfs.appendText
      rw [hfile, Option.getD_some]

theorem addGroup_eq : r.addGroup = r.addEntry groupFile groupKey groupEntry := by
  unfold Rootfs.addGroup Rootfs.addEntry
  by_cases hthere : r.isFile groupFile
  · simp [hthere]
  · have hempty : ¬ groupKey <:+: [] := by decide
    simp [hthere, hempty]

theorem addEntry_dirs : (r.addEntry path key entry).dirs = r.dirs := by
  unfold Rootfs.addEntry
  split <;> rfl

theorem addSudo_files {content : Content} (h : r.files groupFile = some content) :
    (r.addSudo k).files = Function.update r.files groupFile (some (withSudo k content)) := by
  unfold Rootfs.addSudo withSudo
  rw [if_pos (isFile_of_files h), text_of_files h]
  simp only
  split
  · rw [← h, Function.update_eq_self]
  · split
    · rfl
    · unfold Rootfs.appendText
      rw [h, Option.getD_some]

theorem addSudo_dirs : (r.addSudo k).dirs = r.dirs := by
  unfold Rootfs.addSudo
  split
  · simp only
    split
    · rfl
    · split <;> rfl
  · rfl

/-- The files that are the same in every root file system. -/
def withDefaults (files : List String → Option Content) : List String → Option Content :=
  Function.update (Function.update (Function.update files environmentPath
    (some (encode environmentText))) profilePath (some (encode profileText)))
    resolvConf (some (encode resolvText))

/-- The files after the configuration. -/
def configured (k : RegexClasses) (files : List String → Option Content) :
    List String → Option Content :=
  Function.update (Function.update (Function.update (Function.update (withDefaults files)
    passwdFile (some (withEntry userKey passwdEntry ((files passwdFile).getD []))))
    groupFile (some (withSudo k (withEntry groupKey groupEntry ((files groupFile).getD [])))))
    shadowFile (some (withEntry userKey shadowEntry ((files shadowFile).getD []))))
    sudoersPath (some (encode sudoersText))

theorem writeDefaults_files (r : Rootfs) : r.writeDefaults.files = withDefaults r.files := by
  unfold Rootfs.writeDefaults
  show Function.update (Function.update (Rootfs.files (Rootfs.mkdirs (ite _ _ _) _)) _ _) _ _ = _
  rw [Function.update_idem]
  split <;> rfl

/-- **The contents afterwards.** -/
theorem configureRootfs_files (k : RegexClasses) (r : Rootfs) :
    (configureRootfs k r).files = configured k r.files := by
  unfold configureRootfs
  simp only
  generalize hstart : r.writeDefaults.mkdirs ["home", "user"] = s
  have hs : s.files = withDefaults r.files := by
    rw [← hstart, ← writeDefaults_files]
    rfl
  have hpasswd := addEntry_files (show userKey ≠ [] by decide) s passwdFile passwdEntry
  have hgroup := addEntry_files (show groupKey ≠ [] by decide)
    (s.addEntry passwdFile userKey passwdEntry) groupFile groupEntry
  rw [← addGroup_eq, hpasswd, hs] at hgroup
  have hsudo := addSudo_files (k := k)
    ((congrFun hgroup groupFile).trans (Function.update_self ..))
  rw [hgroup, Function.update_idem] at hsudo
  have hshadow := addEntry_files (show userKey ≠ [] by decide)
    ((s.addEntry passwdFile userKey passwdEntry).addGroup.addSudo k) shadowFile shadowEntry
  rw [hsudo] at hshadow
  show Function.update (Rootfs.files (Rootfs.addEntry _ _ _ _)) _ _ = _
  rw [hshadow]
  rfl

/-! ### The second run -/

/-- The key is there afterwards if the entry has it. -/
theorem key_withEntry (hkey : key <:+: entry) (content : Content) :
    key <:+: readText (withEntry key entry content) := by
  unfold withEntry
  split
  · assumption
  · rw [readText_append, readText_encode]
    exact hkey.trans (List.suffix_append _ _).isInfix

theorem withEntry_of_key {content : Content} (h : key <:+: readText content) :
    withEntry key entry content = content := if_pos h

/-- The key of the group is not destroyed when the user is added to the group sudo. -/
theorem groupKey_withSudo {content : Content} (h : groupKey <:+: readText content) :
    groupKey <:+: readText (withSudo k content) := by
  unfold withSudo
  split
  · exact h
  · split
    · rw [readText_encode]
      exact infix_replaceSudo "user:x:1000".toList
        (not_terminator_of_mem_ascii (by decide)) h
    · rw [readText_append]
      exact h.trans (List.prefix_append _ _).isInfix

/-- The entry that is appended is found. -/
theorem findMember_sudoEntry (before : List Char) : findMember k (before ++ sudoEntry) := by
  have hdots : dots k "user\n".toList = user := by
    show dots k (user ++ ['\n']) = user
    rw [dots_append (not_terminator_of_mem_ascii (by decide)), dots_cons k.newline, List.append_nil]
  have hhead : IsHead k "sudo:x:27:".toList :=
    ⟨['2', '7'], by decide, List.forall_mem_cons.mpr ⟨k.digit_ascii '2' (by decide),
      List.forall_mem_singleton.mpr (k.digit_ascii '7' (by decide))⟩, by decide⟩
  have hmatch : matchSudo k sudoEntry = some ⟨"sudo:x:27:".toList, user⟩ :=
    matchSudo_eq_some_iff.mpr ⟨"user\n".toList, hhead, by decide, hdots.symm⟩
  exact findMember_of_match before hmatch (List.infix_refl user)

/-- Whatever was done for the group sudo, the user is found in it the next time. -/
theorem withSudo_twice (k : RegexClasses) (content : Content) :
    withSudo k (withSudo k content) = withSudo k content := by
  refine if_pos ?_
  unfold withSudo
  split
  · assumption
  · split
    · rename_i hfound
      rw [readText_encode]
      exact findMember_replaceSudo hfound
    · rw [readText_append, readText_encode]
      exact findMember_sudoEntry _

theorem update_of_eq {files : List String → Option Content} {content : Option Content}
    (h : files path = content) : Function.update files path content = files := by
  rw [← h, Function.update_eq_self]

theorem configured_twice (k : RegexClasses) (files : List String → Option Content) :
    configured k (configured k files) = configured k files := by
  generalize hg : configured k files = g
  have henv : g environmentPath = some (encode environmentText) := by rw [← hg]; rfl
  have hprofile : g profilePath = some (encode profileText) := by rw [← hg]; rfl
  have hresolv : g resolvConf = some (encode resolvText) := by rw [← hg]; rfl
  have hsudoers : g sudoersPath = some (encode sudoersText) := by rw [← hg]; rfl
  have hpasswd : g passwdFile = some (withEntry userKey passwdEntry ((files passwdFile).getD [])) := by
    rw [← hg]
    rfl
  have hgroup : g groupFile
      = some (withSudo k (withEntry groupKey groupEntry ((files groupFile).getD []))) := by
    rw [← hg]
    rfl
  have hshadow : g shadowFile = some (withEntry userKey shadowEntry ((files shadowFile).getD [])) := by
    rw [← hg]
    rfl
  unfold configured withDefaults
  rw [update_of_eq henv, update_of_eq hprofile, update_of_eq hresolv]
  have hpasswdKey := key_withEntry (show userKey <:+: passwdEntry by decide)
  have hshadowKey := key_withEntry (show userKey <:+: shadowEntry by decide)
  have hgroupKey := fun content => groupKey_withSudo (k := k)
    (key_withEntry (show groupKey <:+: groupEntry by decide) content)
  have hpasswd' : g passwdFile = some (withEntry userKey passwdEntry ((g passwdFile).getD [])) := by
    rw [hpasswd, Option.getD_some, withEntry_of_key (hpasswdKey _)]
  have hgroup' : g groupFile
      = some (withSudo k (withEntry groupKey groupEntry ((g groupFile).getD []))) := by
    rw [hgroup, Option.getD_some, withEntry_of_key (hgroupKey _), withSudo_twice]
  have hshadow' : g shadowFile = some (withEntry userKey shadowEntry ((g shadowFile).getD [])) := by
    rw [hshadow, Option.getD_some, withEntry_of_key (hshadowKey _)]
  rw [update_of_eq hpasswd', update_of_eq hgroup', update_of_eq hshadow', update_of_eq hsudoers]

theorem mkdirs_dirs (r : Rootfs) (path dir : List String) :
    (r.mkdirs path).dirs dir ↔ r.dirs dir ∨ dir <+: path := by
  simp [Rootfs.mkdirs]

theorem writeDefaults_dirs (r : Rootfs) (dir : List String) :
    r.writeDefaults.dirs dir ↔
      r.dirs dir ∨ dir <+: ["etc"] ∨ dir <+: ["etc", "profile.d"] ∨
        (¬ (r.isFile devShm ∨ r.dirs devShm) ∧ dir <+: devShm) ∨ dir <+: ["tmp"] := by
  unfold Rootfs.writeDefaults
  simp only
  generalize hq : (((r.mkdirs ["etc"]).writeText environmentPath environmentText).mkdirs
    ["etc", "profile.d"]).writeText profilePath profileText = q
  have hfile : q.isFile devShm = r.isFile devShm := by rw [← hq]; rfl
  have hdirs : ∀ d, q.dirs d ↔ r.dirs d ∨ d <+: ["etc"] ∨ d <+: ["etc", "profile.d"] := by
    intro d
    rw [← hq]
    show (Rootfs.mkdirs _ _).dirs d ↔ _
    rw [mkdirs_dirs, ← or_assoc]
    exact or_congr_left (mkdirs_dirs r ["etc"] d)
  have hshm : q.dirs devShm ↔ r.dirs devShm := by
    rw [hdirs]
    simp [devShm]
  show (Rootfs.mkdirs _ _).dirs dir ↔ _
  rw [mkdirs_dirs, hfile]
  by_cases hthere : r.isFile devShm ∨ r.dirs devShm
  · have hcond : (r.isFile devShm || q.dirs devShm) = true := by
      rw [Bool.or_eq_true, hshm]
      exact hthere
    rw [if_pos hcond, hdirs]
    tauto
  · have hcond : ¬ (r.isFile devShm || q.dirs devShm) = true := by
      rw [Bool.or_eq_true, hshm]
      exact hthere
    rw [if_neg hcond, mkdirs_dirs, hdirs]
    tauto

/-- Which directories there are afterwards; `dev/shm` is created if there is nothing yet. -/
theorem configureRootfs_dirs (k : RegexClasses) (r : Rootfs) (dir : List String) :
    (configureRootfs k r).dirs dir ↔
      r.writeDefaults.dirs dir ∨ dir <+: ["home", "user"] ∨ dir <+: ["etc", "sudoers.d"] := by
  unfold configureRootfs
  simp only
  show (Rootfs.mkdirs _ _).dirs dir ↔ _
  rw [mkdirs_dirs, addEntry_dirs, addSudo_dirs, addGroup_eq, addEntry_dirs, addEntry_dirs, mkdirs_dirs,
    or_assoc]

/-- **Idempotence.**  A second run leaves everything as it is. -/
theorem configureRootfs_twice (k : RegexClasses) (r : Rootfs) :
    configureRootfs k (configureRootfs k r) = configureRootfs k r := by
  have hfiles : (configureRootfs k (configureRootfs k r)).files = (configureRootfs k r).files := by
    rw [configureRootfs_files, configureRootfs_files, configured_twice]
  have hthere : (configureRootfs k r).isFile devShm ∨ (configureRootfs k r).dirs devShm := by
    rw [configureRootfs_dirs, writeDefaults_dirs]
    by_cases hfile : r.isFile devShm
    · refine .inl ?_
      unfold Rootfs.isFile
      rw [configureRootfs_files]
      exact hfile
    · by_cases hdir : r.dirs devShm
      · exact .inr (.inl (.inl hdir))
      · exact .inr (.inl (.inr (.inr (.inr (.inl ⟨by tauto, List.prefix_refl devShm⟩)))))
  have hdirs : (configureRootfs k (configureRootfs k r)).dirs = (configureRootfs k r).dirs := by
    funext dir
    rw [Bool.eq_iff_iff, configureRootfs_dirs k (configureRootfs k r), writeDefaults_dirs]
    have hafter := configureRootfs_dirs k r dir
    rw [writeDefaults_dirs] at hafter
    tauto
  exact Rootfs.ext hfiles hdirs

end Contents

end Wldroid.Proot
