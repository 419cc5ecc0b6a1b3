import StubListing.Main
import StubListing.Catalog.Writing
import StubListing.Proofs.Run.History
import StubListing.Proofs.Run.Interleaving
import StubListing.Proofs.Run.Frame
import StubListing.Proofs.Run.EmptyRoot
import StubListing.Proofs.Run.Repeating
import StubListing.Proofs.Catalog.Merging
import StubListing.Proofs.Catalog.Loading
import StubListing.Proofs.Disk.Sparing
import StubListing.Proofs.Run.Sparing
import StubListing.Proofs.CommandLine.Inputs
import StubListing.Proofs.Run.Reporting
import StubListing.Proofs.CommandLine.Preview
import StubListing.Proofs.Manifest.Storing
import StubListing.Proofs.Run.Unheeded
import StubListing.Proofs.Catalog.Directory
import StubListing.Proofs.Run.Keeping
import StubListing.Proofs.Catalog.Agreeing
import StubListing.Proofs.Run.Verdicts
import StubListing.Proofs.Stub.Signature
import StubListing.Proofs.Run.Uncluttered
import StubListing.Proofs.Catalog.Selecting
import StubListing.Proofs.Catalog.Concatenating
import StubListing.Proofs.Stub.Visible
import StubListing.Proofs.Stub.Spacing
import StubListing.Proofs.Config.Settling
import StubListing.Proofs.Run.Naming
