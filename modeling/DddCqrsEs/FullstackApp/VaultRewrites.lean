import DddCqrsEs.FullstackApp.VaultSessions

/- What is known of the rows of an organization, and the two ways in which a request replaces
them. -/
namespace DddCqrsEs.FullstackApp

open ReplaceAll

namespace Organization

/-- All that is stored or loaded is known, and a secret is known by its id. -/
structure Registered (organization : Organization) : Prop where
  unique : ∀ first ∈ organization.created, ∀ second ∈ organization.created,
    first.id = second.id → first = second
  stored : ∀ row ∈ organization.secrets, row.content ∈ organization.created
  deleted : ∀ id ∈ organization.deleted, id ∈ organization.created.map VaultRow.id
  listed : organization.notices.stored ⊆ organization.announced
  kept : ∀ id ∈ organization.announced, id ∉ organization.dismissed →
    id ∈ organization.notices.stored

/-- Rows that were loaded at some time. -/
def Known (organization : Organization) (loaded : List VaultRow) : Prop :=
  ∀ row ∈ loaded, row.content ∈ organization.created

/-- Notifications that were loaded at some time. -/
structure Heard (organization : Organization) (loaded : List DashboardNotification) : Prop where
  listed : loaded.map DashboardNotification.id ⊆ organization.announced
  kept : ∀ id ∈ organization.announced, id ∉ organization.dismissed →
    id ∈ loaded.map DashboardNotification.id

/-- What a request holds is known, and what it has checked still holds of that. -/
def Backs (organization : Organization) : VaultSession → Prop
  | .idle | .reloading _ => True
  | .resolving _ loaded => organization.Known loaded
  | .creating prepared loaded => organization.Known loaded ∧
      ∀ row ∈ loaded, ¬ EqIgnoreAsciiCase row.displayKey prepared.key
  | .deleting id loaded => organization.Known loaded ∧ id ∈ loaded.map VaultRow.id
  | .dismissing _ loaded => organization.Heard loaded

/-- What is known stays known. -/
structure Grows (before after : Organization) : Prop where
  created : before.created ⊆ after.created
  announced : after.announced = before.announced
  dismissed : before.dismissed ⊆ after.dismissed

/-- All rows are replaced by loaded ones, changed as the request asks. -/
structure Rewrites (organization : Organization) (change : Change String)
    (loaded rows new : List VaultRow) : Prop where
  known : organization.Known loaded
  contents : ∀ row ∈ rows, row.content ∈ loaded.map VaultRow.content ∨ row.content ∈ new
  ids : rows.map VaultRow.id = change.apply (loaded.map VaultRow.id)
  names : new.map VaultRow.id = change.added
  removed : ∀ id ∈ change.removed, id ∈ loaded.map VaultRow.id
  fresh : ∀ secret ∈ new, secret.id ∉ organization.created.map VaultRow.id
  apart : ∀ secret ∈ new, ∀ row ∈ loaded,
    ¬ EqIgnoreAsciiCase row.displayKey secret.displayKey

variable {organization after : Organization}

theorem Backs.grows {session : VaultSession} (backs : organization.Backs session)
    (grows : organization.Grows after) : after.Backs session := by
  have known {loaded : List VaultRow} (known : organization.Known loaded) : after.Known loaded :=
    fun row mem => grows.created (known row mem)
  cases session with
  | idle => trivial
  | resolving creation loaded => exact known backs
  | reloading prepared => trivial
  | creating prepared loaded => exact ⟨known backs.1, backs.2⟩
  | deleting id loaded => exact ⟨known backs.1, backs.2⟩
  | dismissing id loaded =>
    constructor
    · rw [grows.announced]
      exact backs.listed
    · intro id announced live
      rw [grows.announced] at announced
      exact backs.kept id announced fun dropped => live (grows.dismissed dropped)

theorem Registered.known (registered : organization.Registered) :
    organization.Known organization.secrets := registered.stored

theorem Registered.heard (registered : organization.Registered) :
    organization.Heard organization.notifications := ⟨registered.listed, registered.kept⟩

theorem Persists.kept (persists : organization.Persists) : organization.vault.Kept := by
  constructor
  · intro name added live
    obtain ⟨secret, created, rfl⟩ := List.mem_map.mp added
    obtain ⟨row, stored, same⟩ := persists.stays secret created live
    rw [← same]
    exact List.mem_map.mpr ⟨row, stored, rfl⟩
  · intro name removed present
    obtain ⟨row, stored, same⟩ := List.mem_map.mp present
    exact persists.gone name removed row stored same

theorem Registered.stays (registered : organization.Registered)
    (kept : organization.vault.Kept) {secret : VaultRow} (created : secret ∈ organization.created)
    (live : secret.id ∉ organization.deleted) :
    ∃ row ∈ organization.secrets, row.content = secret := by
  have present := kept.stays secret.id (List.mem_map_of_mem created) live
  obtain ⟨row, stored, same⟩ := List.mem_map.mp present
  refine ⟨row, stored, ?_⟩
  exact registered.unique row.content (registered.stored row stored) secret created same

namespace Rewrites

variable {change : Change String} {loaded rows new : List VaultRow}

theorem content_ids (rows : List VaultRow) :
    (rows.map VaultRow.content).map VaultRow.id = rows.map VaultRow.id := by
  simp [Function.comp_def]

/-- A listing writes back what it has loaded. -/
theorem of_keep (known : organization.Known loaded)
    (same : rows.map VaultRow.content = loaded.map VaultRow.content) :
    organization.Rewrites .keep loaded rows [] where
  known := known
  contents row mem := Or.inl (same ▸ List.mem_map_of_mem mem)
  ids := by
    rw [← content_ids rows, same, content_ids]
    rfl
  names := rfl
  removed _ mem := absurd mem List.not_mem_nil
  fresh _ mem := absurd mem List.not_mem_nil
  apart _ mem := absurd mem List.not_mem_nil

/-- A creation adds one row. -/
theorem of_add {secret : VaultRow} (known : organization.Known loaded)
    (same : rows.map VaultRow.content = loaded.map VaultRow.content ++ [secret])
    (fresh : secret.id ∉ organization.created.map VaultRow.id)
    (apart : ∀ row ∈ loaded, ¬ EqIgnoreAsciiCase row.displayKey secret.displayKey) :
    organization.Rewrites (.add secret.id) loaded rows [secret] where
  known := known
  contents row mem := by
    have written : row.content ∈ loaded.map VaultRow.content ++ [secret] :=
      same ▸ List.mem_map_of_mem mem
    exact List.mem_append.mp written
  ids := by
    rw [← content_ids rows, same, List.map_append, content_ids]
    rfl
  names := rfl
  removed _ mem := absurd mem List.not_mem_nil
  fresh other mem := List.mem_singleton.mp mem ▸ fresh
  apart other mem := List.mem_singleton.mp mem ▸ apart

/-- A deletion leaves the other rows. -/
theorem of_remove {id : String} (known : organization.Known loaded)
    (found : id ∈ loaded.map VaultRow.id)
    (same : rows.map VaultRow.content =
      (loaded.filter fun row => row.id ≠ id).map VaultRow.content) :
    organization.Rewrites (.remove id) loaded rows [] where
  known := known
  contents row mem := by
    have written := List.mem_map_of_mem (f := VaultRow.content) mem
    rw [same] at written
    obtain ⟨other, left, alike⟩ := List.mem_map.mp written
    exact Or.inl (List.mem_map.mpr ⟨other, List.mem_of_mem_filter left, alike⟩)
  ids := by
    rw [← content_ids rows, same, content_ids]
    simp [Change.apply, List.filter_map, Function.comp_def]
  names := rfl
  removed other mem := List.mem_singleton.mp mem ▸ found
  fresh _ mem := absurd mem List.not_mem_nil
  apart _ mem := absurd mem List.not_mem_nil

theorem vault (rewrites : organization.Rewrites change loaded rows new) :
    (organization.replaceSecrets rows new change.removed).vault =
      organization.vault.write change (loaded.map VaultRow.id) := by
  simp [Organization.vault, replaceSecrets, Ledger.write, rewrites.ids, rewrites.names]

theorem known_ids (rewrites : organization.Rewrites change loaded rows new) :
    loaded.map VaultRow.id ⊆ organization.vault.added := by
  intro name read
  obtain ⟨row, mem, rfl⟩ := List.mem_map.mp read
  exact List.mem_map.mpr ⟨row.content, rewrites.known row mem, rfl⟩

theorem fresh_id (rewrites : organization.Rewrites change loaded rows new) {name : String}
    (added : name ∈ change.added) : name ∉ organization.vault.added := by
  rw [← rewrites.names] at added
  obtain ⟨secret, mem, rfl⟩ := List.mem_map.mp added
  exact rewrites.fresh secret mem

theorem new_unique (rewrites : organization.Rewrites change loaded rows new)
    {first second : VaultRow} (one : first ∈ new) (two : second ∈ new) : first = second := by
  have short : new.length ≤ 1 := by
    rw [← List.length_map (f := VaultRow.id), rewrites.names]
    exact change.length_added
  cases new with
  | nil => cases one
  | cons only rest =>
    have last : rest = [] := List.length_eq_zero_iff.mp (by simpa using short)
    subst last
    rw [List.mem_singleton.mp one, List.mem_singleton.mp two]

theorem grows (organization : Organization) (rows new : List VaultRow) (deleted : List String) :
    organization.Grows (organization.replaceSecrets rows new deleted) :=
  ⟨List.subset_append_left _ _, rfl, fun _ mem => mem⟩

theorem registered (rewrites : organization.Rewrites change loaded rows new)
    (registered : organization.Registered) :
    (organization.replaceSecrets rows new change.removed).Registered where
  unique := by
    intro first one second two same
    rcases List.mem_append.mp one with one | one <;> rcases List.mem_append.mp two with two | two
    · exact registered.unique first one second two same
    · exact absurd (same ▸ List.mem_map_of_mem one) (rewrites.fresh second two)
    · exact absurd (same ▸ List.mem_map_of_mem two) (rewrites.fresh first one)
    · exact rewrites.new_unique one two
  stored := by
    intro row mem
    rcases rewrites.contents row mem with old | fresh
    · obtain ⟨other, read, same⟩ := List.mem_map.mp old
      rw [← same]
      exact List.mem_append_left _ (rewrites.known other read)
    · exact List.mem_append_right _ fresh
  deleted := by
    intro id mem
    simp only [replaceSecrets, List.map_append, List.mem_append] at mem ⊢
    apply Or.inl
    rcases mem with earlier | own
    · exact registered.deleted id earlier
    · exact rewrites.known_ids (rewrites.removed id own)
  listed := registered.listed
  kept := registered.kept

/-- A row that was loaded and not changed is still there, if the rows are those that were
loaded. -/
theorem still_stored (rewrites : organization.Rewrites change loaded rows new)
    (registered : organization.Registered)
    (current : organization.vault.Current change (loaded.map VaultRow.id)) {row : VaultRow}
    (mem : row ∈ rows) (old : row.content ∈ loaded.map VaultRow.content) :
    ∃ other ∈ organization.secrets, other.content = row.content := by
  obtain ⟨earlier, read, same⟩ := List.mem_map.mp old
  have known : row.content ∈ organization.created := same ▸ rewrites.known earlier read
  have spares : change.Spares row.id := by
    constructor
    · intro added
      exact rewrites.fresh_id added (List.mem_map.mpr ⟨row.content, known, rfl⟩)
    · intro removed
      have present : row.id ∈ rows.map VaultRow.id := List.mem_map.mpr ⟨row, mem, rfl⟩
      rw [rewrites.ids] at present
      exact Change.not_mem_apply_of_removed removed present
  have present := (current row.id spares).mp
    (List.mem_map.mpr ⟨earlier, read, VaultRow.id_eq_of_content same⟩)
  obtain ⟨other, stored, alike⟩ := List.mem_map.mp present
  refine ⟨other, stored, ?_⟩
  exact registered.unique _ (registered.stored other stored) _ known alike

theorem distinct (rewrites : organization.Rewrites change loaded rows new)
    (registered : organization.Registered) (persists : organization.Persists)
    (current : organization.vault.Current change (loaded.map VaultRow.id)) :
    ∀ first ∈ rows, ∀ second ∈ rows,
      EqIgnoreAsciiCase first.displayKey second.displayKey → first.id = second.id := by
  have apart {row secret : VaultRow} (old : row.content ∈ loaded.map VaultRow.content)
      (fresh : secret.content ∈ new) :
      ¬ EqIgnoreAsciiCase row.displayKey secret.displayKey := by
    obtain ⟨other, read, same⟩ := List.mem_map.mp old
    have differ := rewrites.apart secret.content fresh other read
    rw [← VaultRow.content_displayKey other, same] at differ
    exact differ
  intro first one second two same
  rcases rewrites.contents first one with old | fresh <;>
    rcases rewrites.contents second two with old' | fresh'
  · obtain ⟨stored, mem, alike⟩ := rewrites.still_stored registered current one old
    obtain ⟨stored', mem', alike'⟩ := rewrites.still_stored registered current two old'
    rw [← VaultRow.content_displayKey first, ← VaultRow.content_displayKey second, ← alike,
      ← alike'] at same
    have ids := persists.distinct stored mem stored' mem' same
    calc first.id = stored.id := (VaultRow.id_eq_of_content alike).symm
      _ = stored'.id := ids
      _ = second.id := VaultRow.id_eq_of_content alike'
  · exact absurd same (apart old fresh')
  · exact absurd same.symm (apart old' fresh)
  · exact VaultRow.id_eq_of_content (rewrites.new_unique fresh fresh')

/-- A rewriting keeps what was acknowledged exactly if it replaces what was loaded. -/
theorem persists_iff (rewrites : organization.Rewrites change loaded rows new)
    (registered : organization.Registered) (persists : organization.Persists) :
    (organization.replaceSecrets rows new change.removed).Persists ↔
      organization.vault.Current change (loaded.map VaultRow.id) := by
  have stored : organization.vault.stored ⊆ organization.vault.added := by
    intro name present
    obtain ⟨row, mem, same⟩ := List.mem_map.mp present
    exact List.mem_map.mpr ⟨row.content, registered.stored row mem, same⟩
  have fresh : ∀ name ∈ change.added,
      name ∉ organization.vault.added ∧ name ∉ organization.vault.removed := by
    intro name added
    have new := rewrites.fresh_id added
    exact ⟨new, fun removed => new (registered.deleted name removed)⟩
  have decides := persists.kept.write_iff stored rewrites.known_ids fresh
  rw [← rewrites.vault] at decides
  constructor
  · intro after
    exact decides.mp after.kept
  · intro current
    have kept := decides.mpr current
    exact {
      stays := fun secret created live =>
        (rewrites.registered registered).stays kept created live
      gone := by
        intro id deleted row mem same
        apply kept.gone id deleted
        exact List.mem_map.mpr ⟨row, mem, same⟩
      distinct := rewrites.distinct registered persists current
      dismissed := persists.dismissed }

end Rewrites

variable {loaded : List DashboardNotification}

theorem notices_replaceNotifications (organization : Organization)
    (loaded : List DashboardNotification) (id : String) :
    (organization.replaceNotifications (loaded.filter fun item => item.id ≠ id) id).notices =
      organization.notices.write (.remove id) (loaded.map DashboardNotification.id) := by
  simp [notices, replaceNotifications, Ledger.write, Change.apply, Change.added, Change.removed,
    List.filter_map, Function.comp_def]

theorem Heard.after_kept (heard : organization.Heard loaded) (id : String) :
    ∀ name ∈ organization.announced, name ∉ organization.dismissed ++ [id] →
      name ∈ (Change.remove id).apply (loaded.map DashboardNotification.id) := by
  intro name announced live
  have apart : name ≠ id := fun same => live (by simp [same])
  have read := heard.kept name announced fun dropped => live (List.mem_append_left _ dropped)
  simpa [Change.apply, apart] using read

theorem Heard.registered (heard : organization.Heard loaded)
    (registered : organization.Registered) (id : String) :
    (organization.replaceNotifications
      (loaded.filter fun item => item.id ≠ id) id).Registered where
  unique := registered.unique
  stored := registered.stored
  deleted := registered.deleted
  listed := by
    intro name present
    rw [notices_replaceNotifications] at present
    exact heard.listed (List.mem_filter.mp present).1
  kept := by
    rw [notices_replaceNotifications]
    exact heard.after_kept id

theorem Heard.grows (organization : Organization) (list : List DashboardNotification)
    (id : String) : organization.Grows (organization.replaceNotifications list id) :=
  ⟨fun _ mem => mem, rfl, List.subset_append_left _ _⟩

theorem Heard.persists_iff (heard : organization.Heard loaded)
    (registered : organization.Registered) (persists : organization.Persists) (id : String) :
    (organization.replaceNotifications (loaded.filter fun item => item.id ≠ id) id).Persists ↔
      organization.notices.Current (.remove id) (loaded.map DashboardNotification.id) := by
  have kept : organization.notices.Kept := by
    constructor
    · exact registered.kept
    · intro name dropped present
      obtain ⟨item, listed, same⟩ := List.mem_map.mp present
      exact persists.dismissed name dropped item listed same
  have decides :
      (organization.notices.write (.remove id) (loaded.map DashboardNotification.id)).Kept ↔
        organization.notices.Current (.remove id) (loaded.map DashboardNotification.id) :=
    kept.write_iff registered.listed heard.listed (by simp [Change.added])
  rw [← notices_replaceNotifications] at decides
  rw [← decides]
  constructor
  · intro after
    constructor
    · exact (heard.registered registered id).kept
    · intro name dropped present
      obtain ⟨item, listed, same⟩ := List.mem_map.mp present
      exact after.dismissed name dropped item listed same
  · intro after
    exact {
      stays := persists.stays
      gone := persists.gone
      distinct := persists.distinct
      dismissed := by
        intro name dropped item listed same
        exact after.gone name dropped (List.mem_map.mpr ⟨item, listed, same⟩) }

end Organization

end DddCqrsEs.FullstackApp
