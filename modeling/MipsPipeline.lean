import MipsPipeline.Files.Tree
import MipsPipeline.Main
import MipsPipeline.Proofs.Bookkeeping
import MipsPipeline.Proofs.Codec
import MipsPipeline.Proofs.Coherence
import MipsPipeline.Proofs.Conservation
import MipsPipeline.Proofs.CycleCost
import MipsPipeline.Proofs.Encoding
import MipsPipeline.Proofs.Fields
import MipsPipeline.Proofs.Geometry
import MipsPipeline.Proofs.Idle
import MipsPipeline.Proofs.Labels
import MipsPipeline.Proofs.Loading
import MipsPipeline.Proofs.Numeral
import MipsPipeline.Proofs.Operands
import MipsPipeline.Proofs.Passage
import MipsPipeline.Proofs.Passes
import MipsPipeline.Proofs.Placement
import MipsPipeline.Proofs.Printing
import MipsPipeline.Proofs.Reassembly
import MipsPipeline.Proofs.Redirect
import MipsPipeline.Proofs.Relisting
import MipsPipeline.Proofs.Relocation
import MipsPipeline.Proofs.Replay
import MipsPipeline.Proofs.Reporting
import MipsPipeline.Proofs.Retention
import MipsPipeline.Proofs.Service
import MipsPipeline.Proofs.Table
import MipsPipeline.Proofs.Token
import MipsPipeline.Proofs.Window
import MipsPipeline.Sequential
import MipsPipeline.Service.Response
import MipsPipeline.Simulator.Event
