import ImemReplay.Main
import ImemReplay.Proofs.BlockingClause
import ImemReplay.Proofs.Outputs
import ImemReplay.Proofs.Replay
import ImemReplay.Proofs.Sessions
import ImemReplay.Proofs.Decodability
import ImemReplay.Proofs.DecodedChains
import ImemReplay.Proofs.WrittenPlaces
import ImemReplay.Proofs.Histories
import ImemReplay.Proofs.Runs
import ImemReplay.Proofs.Dumps
import ImemReplay.Proofs.LoadingFaults
import ImemReplay.Proofs.KeptLiterals
import ImemReplay.Proofs.Pictures
import ImemReplay.Proofs.Extractions
import ImemReplay.Proofs.AcceptedTables
import ImemReplay.Proofs.Addresses
import ImemReplay.Proofs.LastLiterals
import ImemReplay.Proofs.Minimality
import ImemReplay.Proofs.Reordering
import ImemReplay.Proofs.DeclaredInputs
import ImemReplay.Proofs.PlacedFields
import ImemReplay.Proofs.PlacementForms
import ImemReplay.Proofs.RegisterLoading
import ImemReplay.Proofs.StoredChains
import ImemReplay.Proofs.ReportReading
import ImemReplay.Proofs.DumpReading
import ImemReplay.Proofs.ListingReading
import ImemReplay.Proofs.ShapedPictures
import ImemReplay.Proofs.ToyDecoding
import ImemReplay.Proofs.DescribedLiterals
