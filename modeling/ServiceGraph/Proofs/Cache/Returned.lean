import ServiceGraph.Proofs.Cache.Writers

/-!
# Which file a lookup returns

The key of a request leads to a manifest and to the file that is returned. The file that is looked at is
that of the key which stands in the manifest.

* `Artifacts.lookup_returns`: what is known of the file that is returned. If the manifest is filed under
  its own key, this is the file that was looked at, and so it is where only stores write manifests;
* `Artifacts.absent_returned`: under another key, the file that is returned need not be there.
-/

namespace ServiceGraph

namespace Artifacts

variable {a : Artifacts} {f : Files} {extensions : List String} {inputs path : String}

/-- **What is known of the file that is returned.** A lookup that succeeds has read a manifest under the
key of the request, and under the key in the manifest a file with the digest that the manifest tells. The
path is that of the key of the request. If the two keys are the same, the file at the path is the one that
was looked at; and where stores, and nothing else, have written manifests, they are the same. -/
theorem lookup_returns (hfound : a.lookup f extensions inputs = .ok path) :
    path = a.artifactPath (keyFor extensions inputs) ∧ ∃ m content,
      a.loadManifest f (keyFor extensions inputs) = .ok (some m) ∧
        f.read (a.artifactPath m.key) = .ok content ∧ Digest.ofBytes content = m.artifactHash ∧
        (m.key = keyFor extensions inputs → f.read path = .ok content) ∧
        ∀ records, a.Vouched records f →
          (∀ s ∈ records, Manifest.ofText? s.manifest.toText = some s.manifest) →
            m.key = keyFor extensions inputs ∧ f.read path = .ok content := by
  obtain ⟨rfl, m, hload, hcheck⟩ := lookup_eq_ok_iff.mp hfound
  obtain ⟨-, -, -, -, hartifact⟩ := check_eq_ok_iff.mp hcheck
  obtain ⟨content, hread, hdigest⟩ := Files.digest_eq_ok hartifact
  have hsame : m.key = keyFor extensions inputs →
      f.read (a.artifactPath (keyFor extensions inputs)) = .ok content := by
    intro hkey
    rw [← hkey]
    exact hread
  refine ⟨rfl, m, content, hload, hread, hdigest.symm, hsame, fun records hvouched hmanifests => ?_⟩
  obtain ⟨s, -, hkey, rfl⟩ := hvouched.of_loadManifest hmanifests hload
  exact ⟨hkey, hsame hkey⟩

/-- a directory with the manifest of a request, in which any key may stand, and the file of that key -/
def filed (key : String) : Files :=
  ⟨[(["app.yaml"], .file (Digest.bytes "parameters:\n")), (["cache"], .directory),
    (["a72cb9bcf4dd0ced.manifest.yaml", "cache"],
      .file (Digest.bytes { cutOffManifest with key := key }.toText)),
    ([artifactName key, "cache"], .file (Digest.bytes "new\n"))], []⟩

theorem loadManifest_filed {key : String}
    (hsurvives : Manifest.ofText? { cutOffManifest with key := key }.toText =
      some { cutOffManifest with key := key }) :
    (Artifacts.mk "/cache").loadManifest (filed key) (keyFor ["core"] "inputs") =
      .ok (some { cutOffManifest with key := key }) := by
  have hread : (filed key).read ((Artifacts.mk "/cache").manifestPath cutOffManifest.key) =
      .ok (Digest.bytes { cutOffManifest with key := key }.toText) := rfl
  rw [cutOff_digests.1]
  exact loadManifest_eq_ok_iff.mpr ⟨_, Files.readText_of_read hread, hsurvives⟩

theorem lookup_filed {key : String}
    (hsurvives : Manifest.ofText? { cutOffManifest with key := key }.toText =
      some { cutOffManifest with key := key })
    (hread : (filed key).read ((Artifacts.mk "/cache").artifactPath key) = .ok (Digest.bytes "new\n")) :
    (Artifacts.mk "/cache").lookup (filed key) ["core"] "inputs" =
      .ok "/cache/a72cb9bcf4dd0ced.rs" := by
  refine lookup_eq_ok_iff.mpr ⟨?_, _, loadManifest_filed hsurvives, check_cutOffManifest_key rfl hread⟩
  rw [cutOff_digests.1]
  rfl

/-- with the key of the request in the manifest, the file that is returned is the one that was looked at -/
theorem filed_returned : ∃ path content,
    (Artifacts.mk "/cache").lookup (filed "a72cb9bcf4dd0ced") ["core"] "inputs" = .ok path ∧
      (filed "a72cb9bcf4dd0ced").read path = .ok content ∧
      Digest.ofBytes content = cutOffManifest.artifactHash := by
  have hfound : (Artifacts.mk "/cache").lookup (filed "a72cb9bcf4dd0ced") ["core"] "inputs" =
      .ok "/cache/a72cb9bcf4dd0ced.rs" := lookup_filed cutOffManifest_survives rfl
  have hfiled : (Artifacts.mk "/cache").loadManifest (filed "a72cb9bcf4dd0ced")
      (keyFor ["core"] "inputs") = .ok (some cutOffManifest) := loadManifest_filed cutOffManifest_survives
  obtain ⟨-, m, content, hload, -, hdigest, hsame, -⟩ := lookup_returns hfound
  obtain rfl : m = cutOffManifest := Option.some.inj (Except.ok.inj (hload.symm.trans hfiled))
  exact ⟨_, content, hfound, hsame cutOff_digests.1.symm, hdigest⟩

theorem misfiled_survives : Manifest.ofText? { cutOffManifest with key := "other" }.toText =
    some { cutOffManifest with key := "other" } := by
  unfold Manifest.ofText? Yaml.Document.read? Yaml.Document.ofText? Yaml.Token.ofText? Yaml.cells?
    Manifest.toText
  -- the evaluation would spend its time on taking the text apart again
  simp only [String.toList_ofList]
  decide +kernel

/-- with another key in the manifest, a file is returned that is not there -/
theorem absent_returned : (Artifacts.mk "/cache").lookup (filed "other") ["core"] "inputs" =
      .ok "/cache/a72cb9bcf4dd0ced.rs" ∧
    (filed "other").read "/cache/a72cb9bcf4dd0ced.rs" = .error .notFound :=
  ⟨lookup_filed misfiled_survives rfl, rfl⟩

end Artifacts
end ServiceGraph
