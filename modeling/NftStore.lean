import NftStore.Backend
import NftStore.Config.Written
import NftStore.Define.Cut
import NftStore.Proofs.Calls
import NftStore.Proofs.Emptied
import NftStore.Proofs.Failure
import NftStore.Proofs.Interleaving
import NftStore.Proofs.Restore
import NftStore.Proofs.StaleHandle
import NftStore.Store.Description
import NftStore.Store.Renumber
import NftStore.Proofs.Renumbering
import NftStore.Proofs.Substitution
import NftStore.Proofs.Existence
import NftStore.Proofs.LastWrite
import NftStore.Proofs.GivenHandle
import NftStore.Proofs.Setup
import NftStore.Proofs.Decoding
import NftStore.Proofs.LineReading
import NftStore.Proofs.WrittenConfig
import NftStore.Proofs.ConfiguredDefines
import NftStore.Proofs.OtherDefines
import NftStore.Proofs.RuleLog
import NftStore.Ini.Layout
import NftStore.Proofs.DeleteListed
import NftStore.Proofs.Layout
import NftStore.Proofs.ConfigOrigin
import NftStore.Proofs.LateDefines
import NftStore.Proofs.Frame
import NftStore.Proofs.Undoing
import NftStore.Proofs.Readable
import NftStore.Proofs.ConfigFaults
import NftStore.Proofs.SubstitutionLaws
import NftStore.Proofs.OneLineEach
import NftStore.Proofs.LineFields
import NftStore.Proofs.KeyParts
import NftStore.Proofs.RunFaults
import NftStore.Proofs.Atomic
