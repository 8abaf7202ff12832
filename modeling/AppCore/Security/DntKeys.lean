import AppCore.Base.Links
import AppCore.Dnt.Envelope
import AppCore.Security.Token

/-!
# DNT keys in files

`dnt.rs` names the key of an application and a tenant by a text with slashes, and `secret_file.rs`
takes such a text for a path below its root. The path that is opened has the components of the text,
and `.` is none.

* `dnt_keys_apart` — different keys, applications or tenants never share a reference or a file, and
  no file outside the root is opened.
-/

namespace AppCore.Security

open Dnt (KeyId DntContext)
open FileSystem (stepNames Plain)

structure DntSecretRefPolicy where
  refPrefix : String
  deriving DecidableEq, Repr

def DntSecretRefPolicy.providerDefault : DntSecretRefPolicy := ⟨"provider:dnt-key/"⟩

/-- The tenant of a reference. -/
def tenantText (tenant : Option TenantId) : String := (tenant.map TenantId.asStr).getD "_"

def DntSecretRefPolicy.referenceFor (policy : DntSecretRefPolicy) (keyId : KeyId)
    (context : DntContext) : String :=
  policy.refPrefix ++ context.applicationId.asStr ++ "/" ++ tenantText context.tenantId ++ "/" ++
    keyId.asStr

/-! ## The file of a reference -/

structure FileSecretResolver where
  root : List PathStep
  deriving DecidableEq, Repr

/-- The step of one segment between slashes; an empty one has none. -/
def pathStep? (segment : List Char) : Option PathStep :=
  if segment = [] then none
  else if segment = ['.'] then some .here
  else if segment = ['.', '.'] then some .up
  else some (.name (String.ofList segment))

/-- The steps of a path as the system takes them: a slash at the end asks for a directory. -/
def pathSteps (s : String) : List PathStep :=
  let segments := s.toList.splitOn '/'
  (if isAbsolute s then [.root] else []) ++ segments.filterMap pathStep? ++
    if segments.getLast? = some [] then [.here] else []

def componentStep : Component → PathStep
  | .rootDir => .root
  | .curDir => .here
  | .parentDir => .up
  | .normal s => .name s

def unavailable {α : Type} : Except WalkError α → Except SecurityError α
  | .ok a => .ok a
  | .error _ => .error .secretUnavailable

def validateRelativeReference (value : String) : Except SecurityError (List Component) :=
  if value = "" ∨ (components value).any (fun c => c == .parentDir || c == .rootDir) then
    .error .invalidSecretRef
  else .ok (components value)

/-- Others have no access, and the owner is the process. -/
def isPrivate (fs : FileSystem) (access : Access) : Bool :=
  access.mode &&& 0o077 == 0 && access.owner == fs.euid

def validatePrivateDirectory (fs : FileSystem) (path : List PathStep) :
    Except SecurityError Unit := do
  match ← unavailable (fs.symlinkMetadata path) with
  | .dir access => if isPrivate fs access then .ok () else .error .invalidSecretRef
  | _ => .error .invalidSecretRef

/-- `reject_symlink_components`, from the component after `current` on. -/
def rejectSymlinkComponents (fs : FileSystem) (current : List PathStep) :
    List Component → Except SecurityError Unit
  | [] => .ok ()
  | component :: rest => do
      let current := current ++ [componentStep component]
      match ← unavailable (fs.symlinkMetadata current) with
      | .link _ => .error .invalidSecretRef
      | _ => rejectSymlinkComponents fs current rest

/-- `validate_private_file`, and the length test after it. -/
def validateFile (fs : FileSystem) (file : Path) : Except SecurityError Bytes :=
  match fs.find file with
  | some (.file content access) =>
    if !isPrivate fs access then .error .invalidSecretRef
    else if content.length = 0 ∨ content.length > 65536 then .error .secretUnavailable
    else .ok content
  | _ => .error .invalidSecretRef

namespace FileSecretResolver

/-- `FileSecretResolver::resolve` up to the file that it opens. -/
def opens (resolver : FileSecretResolver) (fs : FileSystem) (reference : String) :
    Except SecurityError Path := do
  let relative ← validateRelativeReference reference
  validatePrivateDirectory fs resolver.root
  let canonicalRoot ← unavailable (fs.canonicalize resolver.root)
  let path := resolver.root ++ pathSteps reference
  rejectSymlinkComponents fs resolver.root relative
  let canonicalPath ← unavailable (fs.canonicalize path)
  if canonicalRoot <+: canonicalPath then unavailable (fs.openNoFollow path)
  else .error .invalidSecretRef

def resolve (resolver : FileSecretResolver) (fs : FileSystem) (reference : String) :
    Except SecurityError Bytes := do
  let file ← resolver.opens fs reference
  validateFile fs file

end FileSecretResolver

theorem of_unavailable {α : Type} {x : Except WalkError α} {a : α} (h : unavailable x = .ok a) :
    x = .ok a := by
  cases x with
  | error e => cases h
  | ok b =>
    cases h
    rfl

def componentNames (parts : List Component) : List String := stepNames (parts.map componentStep)

/-- A component that does not lead up or back to the root. -/
def IsDown (part : Component) : Prop := part ≠ .rootDir ∧ part ≠ .parentDir

/-- The components that were looked at are found, and none is a link. -/
theorem plain_of_rejectSymlinkComponents {fs : FileSystem} {current : List PathStep} {links : ℕ}
    {p : Path} {parts : List Component}
    (hwalk : fs.walk FileSystem.maxLinks fs.cwd current = .ok (links, p))
    (hdown : ∀ part ∈ parts, IsDown part)
    (h : rejectSymlinkComponents fs current parts = .ok ()) :
    Plain fs p (componentNames parts) := by
  induction parts generalizing current p with
  | nil => trivial
  | cons part parts ih =>
    have hrest : ∀ part ∈ parts, IsDown part := fun part hpart =>
      hdown part (List.mem_cons_of_mem _ hpart)
    obtain ⟨node, hnode, h⟩ := bind_eq_ok.1 h
    obtain ⟨found, hreach, hfound⟩ := bind_eq_ok.1 (of_unavailable hnode)
    have hgo : rejectSymlinkComponents fs (current ++ [componentStep part]) parts = .ok () ∧
        ∀ target, node ≠ .link target := by
      cases node with
      | link target => cases h
      | dir access => exact ⟨h, fun _ heq => by cases heq⟩
      | file content access => exact ⟨h, fun _ heq => by cases heq⟩
    cases part with
    | rootDir => exact absurd rfl (hdown _ List.mem_cons_self).1
    | parentDir => exact absurd rfl (hdown _ List.mem_cons_self).2
    | curDir =>
      have hdir : fs.isDir p = true := by
        by_contra hdir
        have hcanonical : fs.canonicalize (current ++ [.here]) = .ok found := by
          simpa [FileSystem.reach, componentStep] using hreach
        rw [FileSystem.canonicalize, FileSystem.walk_concat hwalk,
          FileSystem.walk_not_dir (by decide) hdir] at hcanonical
        cases hcanonical
      have hnext : fs.walk FileSystem.maxLinks fs.cwd (current ++ [.here]) = .ok (links, p) := by
        rw [FileSystem.walk_concat hwalk, FileSystem.walk_here hdir, FileSystem.walk_nil]
      exact ih hnext hrest hgo.1
    | normal s =>
      simp only [componentStep, FileSystem.reach, List.getLast?_concat, List.dropLast_concat,
        hwalk, ok_bind] at hreach
      split_ifs at hreach with hdir hsome
      cases hreach
      have hlink : fs.isLink (p ++ [s]) = false := by
        unfold FileSystem.isLink
        cases hfind : fs.find (p ++ [s]) with
        | none => rfl
        | some inode =>
          rw [hfind] at hfound
          cases hfound
          cases node with
          | dir access => rfl
          | file content access => rfl
          | link target => exact absurd rfl (hgo.2 target)
      have hnext : fs.walk FileSystem.maxLinks fs.cwd (current ++ [.name s]) =
          .ok (links, p ++ [s]) := by
        rw [FileSystem.walk_concat hwalk, FileSystem.walk_name hdir hsome hlink,
          FileSystem.walk_nil]
      exact ⟨hsome, hlink, ih hnext hrest hgo.1⟩

/-! ## Segments -/

theorem stepNames_filterMap (segments : List (List Char)) :
    stepNames (segments.filterMap pathStep?) = componentNames (segments.filterMap component?) := by
  induction segments with
  | nil => rfl
  | cons segment segments ih =>
    by_cases hempty : segment = []
    · subst hempty
      rw [List.filterMap_cons_none rfl, List.filterMap_cons_none rfl, ih]
    · by_cases hdot : segment = ['.']
      · subst hdot
        have hstep : pathStep? ['.'] = some .here := by decide
        rw [List.filterMap_cons_some hstep, List.filterMap_cons_none (by decide)]
        exact ih
      · by_cases hdots : segment = ['.', '.']
        · subst hdots
          have hstep : pathStep? ['.', '.'] = some .up := by decide
          have hpart : component? ['.', '.'] = some .parentDir := by decide
          rw [List.filterMap_cons_some hstep, List.filterMap_cons_some hpart]
          exact ih
        · have hstep : pathStep? segment = some (.name (String.ofList segment)) := by
            rw [pathStep?, if_neg hempty, if_neg hdot, if_neg hdots]
          have hpart : component? segment = some (.normal (String.ofList segment)) := by
            rw [component?, if_neg (not_or.2 ⟨hempty, hdot⟩), if_neg hdots]
          rw [List.filterMap_cons_some hstep, List.filterMap_cons_some hpart]
          exact congrArg (List.cons (String.ofList segment)) ih

theorem ne_root_of_pathStep? {segment : List Char} {step : PathStep}
    (h : pathStep? segment = some step) : step ≠ .root := by
  unfold pathStep? at h
  rintro rfl
  split_ifs at h <;> cases h

theorem component?_of_pathStep?_up {segment : List Char} (h : pathStep? segment = some .up) :
    component? segment = some .parentDir := by
  unfold pathStep? at h
  split_ifs at h with hempty hdot hdots
  · cases h
  · rw [hdots]
    rfl
  · cases h

/-- A reference without components that lead up or to the root is a path that goes down, under the
names of its components. -/
theorem pathSteps_down {reference : String}
    (hdown : ∀ part ∈ components reference, IsDown part) :
    (∀ step ∈ pathSteps reference, step ≠ .root ∧ step ≠ .up) ∧
      stepNames (pathSteps reference) = componentNames (components reference) := by
  have habsolute : isAbsolute reference = false := by
    by_contra habsolute
    rw [Bool.not_eq_false] at habsolute
    refine (hdown .rootDir ?_).1 rfl
    simp [components, habsolute]
  have hup : ∀ step ∈ (reference.toList.splitOn '/').filterMap pathStep?,
      step ≠ .root ∧ step ≠ .up := by
    intro step hstep
    obtain ⟨segment, hsegment, hpath⟩ := List.mem_filterMap.1 hstep
    refine ⟨ne_root_of_pathStep? hpath, ?_⟩
    rintro rfl
    have hparent := component?_of_pathStep?_up hpath
    refine (hdown .parentDir ?_).2 rfl
    exact List.mem_append_right _ (List.mem_filterMap.2 ⟨segment, hsegment, hparent⟩)
  constructor
  · intro step hstep
    simp only [pathSteps, habsolute, Bool.false_eq_true, if_false, List.nil_append,
      List.mem_append] at hstep
    rcases hstep with hstep | hstep
    · exact hup step hstep
    · split_ifs at hstep
      · rw [List.mem_singleton.1 hstep]
        exact ⟨by decide, by decide⟩
      · cases hstep
  · have hlast (p : Prop) [Decidable p] :
        stepNames (if p then [PathStep.here] else []) = [] := by
      split_ifs <;> rfl
    have hfirst (p : Prop) [Decidable p] :
        componentNames (if p then [Component.curDir] else []) = [] := by
      split_ifs <;> rfl
    have hsteps (a b : List PathStep) : stepNames (a ++ b) = stepNames a ++ stepNames b :=
      List.filterMap_append
    have hparts (a b : List Component) :
        componentNames (a ++ b) = componentNames a ++ componentNames b := by
      rw [componentNames, List.map_append, hsteps]
      rfl
    simp only [pathSteps, components, habsolute, Bool.false_eq_true, if_false, List.nil_append,
      hsteps, hparts, hlast, hfirst, List.append_nil]
    exact stepNames_filterMap _

/-- A reference opens the file that its components name below the canonical root. -/
theorem opens_below {resolver : FileSecretResolver} {fs : FileSystem} {reference : String}
    {p : Path} (h : resolver.opens fs reference = .ok p) :
    (∀ part ∈ components reference, IsDown part) ∧
      ∃ base, fs.canonicalize resolver.root = .ok base ∧
        p = base ++ componentNames (components reference) := by
  obtain ⟨relative, hrelative, hchecked⟩ := bind_eq_ok.1 h
  obtain ⟨-, -, hprivate⟩ := bind_eq_ok.1 hchecked
  obtain ⟨base, hbase, hrooted⟩ := bind_eq_ok.1 hprivate
  obtain ⟨_, hlinks, hunlinked⟩ := bind_eq_ok.1 hrooted
  obtain ⟨canonical, hcanonical, hopen⟩ := bind_eq_ok.1 hunlinked
  split_ifs at hopen with hstart
  unfold validateRelativeReference at hrelative
  split_ifs at hrelative with hvalid
  cases hrelative
  have hdown : ∀ part ∈ components reference, IsDown part := by
    intro part hpart
    rw [not_or, Bool.not_eq_true, List.any_eq_false] at hvalid
    have hother := hvalid.2 part hpart
    simpa [IsDown, and_comm, not_or] using hother
  have hroot := of_unavailable hbase
  obtain ⟨hsteps, hnames⟩ := pathSteps_down hdown
  have hcanonical := of_unavailable hcanonical
  obtain rfl := FileSystem.canonicalize_of_openNoFollow (of_unavailable hopen) hcanonical
  refine ⟨hdown, base, hroot, ?_⟩
  unfold FileSystem.canonicalize at hroot hcanonical
  cases hwalk : fs.walk FileSystem.maxLinks fs.cwd resolver.root with
  | error e =>
    rw [hwalk] at hroot
    cases hroot
  | ok reached =>
    rw [hwalk] at hroot
    cases hroot
    rw [FileSystem.walk_append, hwalk, ok_bind] at hcanonical
    have hplain := plain_of_rejectSymlinkComponents hwalk hdown hlinks
    cases hend : fs.walk reached.1 reached.2 (pathSteps reference) with
    | error e =>
      rw [hend] at hcanonical
      cases hcanonical
    | ok ended =>
      rw [hend] at hcanonical
      cases hcanonical
      rw [(FileSystem.walk_plain hsteps (hnames ▸ hplain) hend).2, hnames]

/-! ## The parts of a reference -/

/-- A part between slashes. -/
def IsPart (s : String) : Prop := '/' ∉ s.toList

variable {s : String}

theorem isPart_of_bytes (h : (0x2f : UInt8) ∉ strBytes s) : IsPart s :=
  fun hmem => h (List.mem_flatMap.2 ⟨'/', hmem, by decide⟩)

theorem isPart_applicationId (id : ApplicationId) : IsPart id.asStr := by
  intro hmem
  have hvalid := id.valid
  unfold validateContractIdentifier at hvalid
  split at hvalid
  · cases hvalid
  · split at hvalid
    · cases hvalid
    · split_ifs at hvalid with hchars
      simp only [Bool.or_eq_true, Bool.not_eq_true', not_or, Bool.not_eq_false] at hchars
      have hslash := List.all_eq_true.1 hchars.1.2 '/' hmem
      exact absurd hslash (by decide)

theorem head_applicationId (id : ApplicationId) :
    ∃ first, id.asStr.toList.head? = some first ∧ isAsciiAlphanumeric first = true := by
  have hvalid := id.valid
  unfold validateContractIdentifier at hvalid
  split at hvalid
  · cases hvalid
  · split at hvalid
    · cases hvalid
    · next first hfirst =>
        split_ifs at hvalid with hchars
        simp only [Bool.or_eq_true, Bool.not_eq_true', not_or, Bool.not_eq_false] at hchars
        exact ⟨first, hfirst, hchars.1.1⟩

theorem isPart_keyId (id : KeyId) : IsPart id.asStr := by
  refine isPart_of_bytes fun hmem => ?_
  have hvalid := id.valid
  unfold Dnt.validateId at hvalid
  split_ifs at hvalid with hempty hchars
  simp only [Bool.and_eq_true, List.all_eq_true] at hchars
  exact absurd (hchars.1.1 0x2f hmem) (by decide)

theorem keyId_ne_empty (id : KeyId) : id.asStr.toList ≠ [] := by
  intro hempty
  have hvalid := id.valid
  rw [Dnt.validateId, strBytes, hempty] at hvalid
  cases hvalid

/-- A tenant made by its constructor. -/
def Constructed (tenant : Option TenantId) : Prop :=
  ∀ t, tenant = some t → TenantId.new t.asStr = .ok t

theorem Constructed.bytes {t : TenantId} (h : Constructed (some t)) :
    2 ≤ (strBytes t.asStr).length ∧ ∀ b ∈ strBytes t.asStr, isDistributedByte b = true := by
  have hnew := h t rfl
  unfold TenantId.new at hnew
  split at hnew
  · cases hnew
  next hvalid => exact bytes_of_distributedIdentifier hvalid

theorem Constructed.not_mem {t : TenantId} (h : Constructed (some t)) {c : Char} {b : UInt8}
    (hc : String.utf8EncodeChar c = [b]) (hb : isDistributedByte b = false) :
    c ∉ t.asStr.toList := by
  intro hmem
  have hbyte : b ∈ strBytes t.asStr := List.mem_flatMap.2 ⟨c, hmem, by simp [hc]⟩
  rw [h.bytes.2 b hbyte] at hb
  cases hb

theorem isPart_tenantText {tenant : Option TenantId} (h : Constructed tenant) :
    IsPart (tenantText tenant) := by
  cases tenant with
  | none => exact (by decide : '/' ∉ "_".toList)
  | some t => exact h.not_mem (b := 0x2f) (by decide) (by decide)

/-- No tenant is named like the absent one. -/
theorem tenantText_injective {a b : Option TenantId} (ha : Constructed a) (hb : Constructed b)
    (h : tenantText a = tenantText b) : a = b := by
  have hnone {t : TenantId} (ht : Constructed (some t)) : t.asStr ≠ "_" := by
    intro heq
    refine ht.not_mem (c := '_') (b := 0x5f) (by decide) (by decide) ?_
    rw [heq]
    decide
  cases a with
  | none =>
    cases b with
    | none => rfl
    | some t => exact absurd h.symm (hnone hb)
  | some s =>
    cases b with
    | none => exact absurd h (hnone ha)
    | some t => exact congrArg some (TenantId.mk.injEq s.asStr t.asStr ▸ h)

/-! ## References are apart -/

theorem splitOn_parts {parts : List String} (hne : parts ≠ []) (h : ∀ s ∈ parts, IsPart s) :
    (['/'].intercalate (parts.map String.toList)).splitOn '/' = parts.map String.toList := by
  refine List.splitOn_intercalate '/' ?_ (by simpa using hne)
  intro t ht
  obtain ⟨s, hs, rfl⟩ := List.mem_map.1 ht
  exact h s hs

/-- The parts of a reference behind its prefix. -/
def referenceParts (keyId : KeyId) (context : DntContext) : List String :=
  [context.applicationId.asStr, tenantText context.tenantId, keyId.asStr]

theorem isPart_of_mem_referenceParts {keyId : KeyId} {context : DntContext}
    (h : Constructed context.tenantId) (hs : s ∈ referenceParts keyId context) :
    IsPart s := by
  simp only [referenceParts, List.mem_cons, List.not_mem_nil, or_false] at hs
  rcases hs with rfl | rfl | rfl
  · exact isPart_applicationId _
  · exact isPart_tenantText h
  · exact isPart_keyId keyId

theorem toList_referenceFor (policy : DntSecretRefPolicy) (keyId : KeyId) (context : DntContext) :
    (policy.referenceFor keyId context).toList = policy.refPrefix.toList ++
      ['/'].intercalate ((referenceParts keyId context).map String.toList) := by
  simp [DntSecretRefPolicy.referenceFor, referenceParts, List.intercalate]

/-- What a reference is made for. -/
def owner (keyId : KeyId) (context : DntContext) : KeyId × ApplicationId × Option TenantId :=
  (keyId, context.applicationId, context.tenantId)

variable {keyId keyId' : KeyId} {context context' : DntContext}

theorem owner_eq (hc : Constructed context.tenantId) (hc' : Constructed context'.tenantId)
    (h : referenceParts keyId context = referenceParts keyId' context') :
    owner keyId context = owner keyId' context' := by
  simp only [referenceParts, List.cons.injEq, and_true] at h
  have hkey : keyId = keyId' := by
    obtain ⟨key, hvalid⟩ := keyId
    obtain ⟨key', hvalid'⟩ := keyId'
    obtain rfl : key = key' := h.2.2
    rfl
  have happ : context.applicationId = context'.applicationId := by
    obtain ⟨⟨app, hvalid⟩, _⟩ := context
    obtain ⟨⟨app', hvalid'⟩, _⟩ := context'
    obtain rfl : app = app' := h.1
    rfl
  rw [owner, owner, hkey, happ, tenantText_injective hc hc' h.2.1]

theorem referenceFor_apart (policy : DntSecretRefPolicy) (hc : Constructed context.tenantId)
    (hc' : Constructed context'.tenantId)
    (h : policy.referenceFor keyId context = policy.referenceFor keyId' context') :
    owner keyId context = owner keyId' context' := by
  have hlist := congrArg String.toList h
  rw [toList_referenceFor, toList_referenceFor] at hlist
  have hsplit := congrArg (List.splitOn '/') (List.append_cancel_left hlist)
  rw [splitOn_parts (by simp [referenceParts]) fun s hs => isPart_of_mem_referenceParts hc hs,
    splitOn_parts (by simp [referenceParts]) fun s hs => isPart_of_mem_referenceParts hc' hs]
    at hsplit
  exact owner_eq hc hc' (List.map_injective_iff.2 (fun _ _ heq => String.toList_injective heq) hsplit)

/-! ## Files are apart -/

theorem component?_of_mem {c : Char} (hc : c ∈ s.toList) (hdot : c ≠ '.') :
    component? s.toList = some (.normal s) := by
  have hempty : s.toList ≠ [] := List.ne_nil_of_mem hc
  have hone : s.toList ≠ ['.'] := by
    intro heq
    rw [heq] at hc
    exact hdot (List.mem_singleton.1 hc)
  have htwo : s.toList ≠ ['.', '.'] := by
    intro heq
    rw [heq] at hc
    simp [hdot] at hc
  simp [component?, hempty, hone, htwo]

theorem component?_applicationId (id : ApplicationId) :
    component? id.asStr.toList = some (.normal id.asStr) := by
  obtain ⟨first, hfirst, hchar⟩ := head_applicationId id
  refine component?_of_mem (List.mem_of_head? hfirst) ?_
  rintro rfl
  exact absurd hchar (by decide)

theorem component?_tenantText {tenant : Option TenantId} (h : Constructed tenant) :
    component? (tenantText tenant).toList = some (.normal (tenantText tenant)) := by
  cases tenant with
  | none => decide
  | some t =>
    have hlong := h.bytes.1
    cases hlist : t.asStr.toList with
    | nil =>
      rw [strBytes, hlist] at hlong
      exact absurd hlong (by decide)
    | cons c rest =>
      have hc : c ∈ t.asStr.toList := hlist ▸ List.mem_cons_self
      refine component?_of_mem hc ?_
      rintro rfl
      exact h.not_mem (b := 0x2e) (by decide) (by decide) hc

/-- The names of a default reference below the root; the key `.` has none. -/
def fileNames (keyId : KeyId) (context : DntContext) : List String :=
  "provider:dnt-key" :: context.applicationId.asStr :: tenantText context.tenantId ::
    if keyId.asStr = "." then [] else [keyId.asStr]

theorem componentNames_default {keyId : KeyId} {context : DntContext}
    (hc : Constructed context.tenantId)
    (hdown : ∀ part ∈ components (DntSecretRefPolicy.providerDefault.referenceFor keyId context),
      IsDown part) :
    componentNames (components (DntSecretRefPolicy.providerDefault.referenceFor keyId context)) =
      fileNames keyId context := by
  have htext : (DntSecretRefPolicy.providerDefault.referenceFor keyId context).toList =
      ['/'].intercalate (("provider:dnt-key" :: referenceParts keyId context).map
        String.toList) := by
    rw [toList_referenceFor]
    simp [DntSecretRefPolicy.providerDefault, referenceParts, List.intercalate]
  have hsplit := @splitOn_parts ("provider:dnt-key" :: referenceParts keyId context)
    (by simp) (List.forall_mem_cons.2 ⟨(by decide : '/' ∉ "provider:dnt-key".toList),
      fun s hs => isPart_of_mem_referenceParts hc hs⟩)
  rw [← htext] at hsplit
  have habsolute :
      isAbsolute (DntSecretRefPolicy.providerDefault.referenceFor keyId context) = false := by
    rw [isAbsolute, htext]
    rfl
  have hparts : components (DntSecretRefPolicy.providerDefault.referenceFor keyId context) =
      .normal "provider:dnt-key" :: .normal context.applicationId.asStr ::
        .normal (tenantText context.tenantId) :: (component? keyId.asStr.toList).toList := by
    have hfirst : component? "provider:dnt-key".toList = some (.normal "provider:dnt-key") :=
      component?_of_mem (c := 'p') (by decide) (by decide)
    have happ := component?_applicationId context.applicationId
    have htenant := component?_tenantText hc
    simp only [components, habsolute, hsplit, referenceParts, List.map_cons, List.map_nil]
    rw [List.filterMap_cons_some hfirst, List.filterMap_cons_some happ,
      List.filterMap_cons_some htenant]
    cases hkey : component? keyId.asStr.toList with
    | none =>
      rw [List.filterMap_cons_none hkey]
      rfl
    | some part =>
      rw [List.filterMap_cons_some hkey]
      rfl
  rw [hparts] at hdown ⊢
  have hkey : componentNames (component? keyId.asStr.toList).toList =
      if keyId.asStr = "." then [] else [keyId.asStr] := by
    by_cases hdot : keyId.asStr = "."
    · rw [if_pos hdot, hdot]
      rfl
    · rw [if_neg hdot]
      have hone : keyId.asStr.toList ≠ ['.'] := fun heq =>
        hdot (String.toList_injective (heq.trans (by decide : ['.'] = ".".toList)))
      by_cases hdots : keyId.asStr.toList = ['.', '.']
      · -- This key leads up, and was refused.
        refine absurd rfl (hdown .parentDir ?_).2
        have hup : component? ['.', '.'] = some .parentDir := by decide
        rw [hdots, hup]
        simp
      · have hname : component? keyId.asStr.toList = some (.normal keyId.asStr) := by
          rw [component?, if_neg (not_or.2 ⟨keyId_ne_empty keyId, hone⟩), if_neg hdots,
            String.ofList_toList]
        rw [hname]
        rfl
  exact congrArg (fun names => "provider:dnt-key" :: context.applicationId.asStr ::
    tenantText context.tenantId :: names) hkey

theorem owner_eq_of_fileNames (hc : Constructed context.tenantId)
    (hc' : Constructed context'.tenantId) (h : fileNames keyId context = fileNames keyId' context') :
    
    owner keyId context = owner keyId' context' := by
  simp only [fileNames, List.cons.injEq, true_and] at h
  obtain ⟨happ, htenant, hkeys⟩ := h
  have hkey : keyId.asStr = keyId'.asStr := by
    split_ifs at hkeys with hdot hdot' hdot'
    · rw [hdot, hdot']
    · exact List.head_eq_of_cons_eq hkeys
  exact owner_eq hc hc' (by rw [referenceParts, referenceParts, happ, htenant, hkey])

/-- Different keys, applications or tenants have different references under every prefix, and never
open the same file with the default one; what they open is below the root. -/
theorem dnt_keys_apart :
    (∀ (policy : DntSecretRefPolicy) (keyId keyId' : KeyId) (context context' : DntContext),
      Constructed context.tenantId → Constructed context'.tenantId →
      policy.referenceFor keyId context = policy.referenceFor keyId' context' →
      owner keyId context = owner keyId' context') ∧
    (∀ (resolver : FileSecretResolver) (fs fs' : FileSystem) (keyId keyId' : KeyId)
      (context context' : DntContext) (file : Path),
      Constructed context.tenantId → Constructed context'.tenantId →
      fs.canonicalize resolver.root = fs'.canonicalize resolver.root →
      resolver.opens fs (DntSecretRefPolicy.providerDefault.referenceFor keyId context) =
        .ok file →
      resolver.opens fs' (DntSecretRefPolicy.providerDefault.referenceFor keyId' context') =
        .ok file →
      owner keyId context = owner keyId' context') ∧
    ∀ (resolver : FileSecretResolver) (fs : FileSystem) (keyId : KeyId) (context : DntContext)
      (file : Path), Constructed context.tenantId →
      resolver.opens fs (DntSecretRefPolicy.providerDefault.referenceFor keyId context) =
        .ok file →
      ∃ base, fs.canonicalize resolver.root = .ok base ∧ base <+: file ∧ base ≠ file := by
  refine ⟨fun policy _ _ _ _ hc hc' h => referenceFor_apart policy hc hc' h, ?_, ?_⟩
  · intro resolver fs fs' keyId keyId' context context' file hc hc' hroot hopen hopen'
    obtain ⟨hdown, base, hbase, hfile⟩ := opens_below hopen
    obtain ⟨hdown', base', hbase', hfile'⟩ := opens_below hopen'
    obtain rfl : base = base' := by
      rw [hroot, hbase'] at hbase
      exact (Except.ok.inj hbase).symm
    rw [componentNames_default hc hdown] at hfile
    rw [componentNames_default hc' hdown'] at hfile'
    exact owner_eq_of_fileNames hc hc' (List.append_cancel_left (hfile.symm.trans hfile'))
  · intro resolver fs keyId context file hc hopen
    obtain ⟨hdown, base, hbase, hfile⟩ := opens_below hopen
    rw [componentNames_default hc hdown] at hfile
    refine ⟨base, hbase, hfile ▸ List.prefix_append _ _, ?_⟩
    rw [hfile]
    simp [fileNames]

end AppCore.Security
